import BlockLang.Proofs.ScopedTexts

/-! # Names in scope in validators

A validator uses its own locals, the class of failures that the module imports, and objects that are
built into the language. Which of these it uses depends on the checks of its schema.
-/

namespace BlockLang.Server

open Code Scopes

/-! ## Names made from names of schemas -/

/-- Whether a word begins or ends like a name that the module declares for a
schema. -/
def looksDeclared (word : String) : Bool :=
  [['v', 'a', 'l', 'i'], ['l', 'i', 's', 't']].contains (word.toList.take 4)
    || [['s', 'n', 'm', 'u', 'l', 'o', 'C'], ['s', 't', 'n', 'e', 'm', 'e', 't']].contains
      (word.toList.reverse.take 7)

/-- A name made from that of a schema is none of some fixed names, which is
checked for the fixed names alone. -/
theorem not_mem_of_looksDeclared {name : String} (h : looksDeclared name = true)
    {names : List String} (hnames : names.all (fun word => !looksDeclared word) = true) :
    name ∉ names := by
  intro hmem
  have hword := List.all_eq_true.mp hnames name hmem
  rw [h] at hword
  cases hword

section Names

variable {s : String}

theorem looksDeclared_validatorName (s : String) : looksDeclared (validatorName s) = true := by
  simp [looksDeclared, validatorName]

theorem looksDeclared_columnsName (s : String) : looksDeclared (columnsName s) = true := by
  simp [looksDeclared, columnsName]

theorem looksDeclared_statementsName (s : String) : looksDeclared (statementsName s) = true := by
  simp [looksDeclared, statementsName]

theorem looksDeclared_listQueryName (s : String) : looksDeclared (listQueryName s) = true := by
  simp [looksDeclared, listQueryName]

/-- A name made from that of a schema can be declared: no reserved word looks
like one, whatever the schema is called. -/
theorem isIdentifier_of_looksDeclared {name : String} (h : looksDeclared name = true)
    (hname : IsName name) : IsIdentifier name := by
  have hall : reservedWords.all (fun word => !looksDeclared word) = true := by decide
  refine ⟨hname, ?_⟩
  rw [isReserved, List.contains_eq_mem, decide_eq_false_iff_not]
  exact not_mem_of_looksDeclared h hall

/-- A schema's validator has a name that can be declared, even where the name of
the schema itself is reserved. -/
theorem isIdentifier_validatorName (h : IsName s) : IsIdentifier (validatorName s) := by
  have hstart : IsName "validate" := ⟨'v', _, rfl, rfl, List.all_eq_true.mp rfl⟩
  exact isIdentifier_of_looksDeclared (looksDeclared_validatorName s) (hstart.append h.isNamePart)

theorem isIdentifier_listQueryName (h : IsName s) : IsIdentifier (listQueryName s) := by
  have hstart : IsName "list" := ⟨'l', _, rfl, rfl, List.all_eq_true.mp rfl⟩
  exact isIdentifier_of_looksDeclared (looksDeclared_listQueryName s)
    ((hstart.append h.isNamePart).append (List.all_eq_true.mp rfl))

theorem isIdentifier_columnsName (h : IsName s) : IsIdentifier (columnsName s) :=
  isIdentifier_of_looksDeclared (looksDeclared_columnsName s) (h.append (List.all_eq_true.mp rfl))

theorem isIdentifier_statementsName (h : IsName s) : IsIdentifier (statementsName s) :=
  isIdentifier_of_looksDeclared (looksDeclared_statementsName s)
    (h.append (List.all_eq_true.mp rfl))

end Names

/-! ## Texts of validators -/

/-- How the texts are read that validators are made of. -/
class ValidatorTexts : Prop where
  pattern : Opens .group .other "new RegExp(" [] ["RegExp"] [⟨.group, [], []⟩] .start
  matching : Reads .group .other ".test(value)" [] ["value"] .other
  text : Reads .group .start "typeof value !== \"string\"" [] ["value"] .other
  shorter : Reads .group .start "value.length < " [] ["value"] .other
  longer : Reads .group .start "value.length > " [] ["value"] .other
  listed : Reads .group .other ".includes(value)" [] ["value"] .other
  finite : Reads .group .start "!Number.isFinite(n)" [] ["Number", "n"] .other
  whole : Reads .group .start "!Number.isInteger(n)" [] ["Number", "n"] .other
  less : Reads .group .start "n < " [] ["n"] .other
  greater : Reads .group .start "n > " [] ["n"] .other
  failure : Opens .block .other "throw new ValidationFailure(" [] ["ValidationFailure"]
    [⟨.group, [], []⟩] .start
  failureFirst : Opens .block .start "throw new ValidationFailure(" [] ["ValidationFailure"]
    [⟨.group, [], []⟩] .start
  condition : Opens .block .start "if (" [] [] [⟨.group, [], []⟩] .start
  output : Opens .block .start "out[" [] ["out"] [⟨.group, [], []⟩] .start
  storeNull : Reads .block .other " = null;" [] [] .start
  storeValue : Reads .block .other " = value;" [] ["value"] .start
  storeNumber : Reads .block .other " = n;" [] ["n"] .start
  storeBoolean : Reads .block .other " = Boolean(value);" [] ["Boolean", "value"] .start
  number : Reads .block .start "const n = Number(value);" ["n"] ["Number", "value"] .start
  value : Opens .block .start "const value = input[" ["value"] ["input"] [⟨.group, [], []⟩] .start
  absent : Opens .block .start r"if (value === undefined || value === null) {" []
    ["value", "undefined", "value"] [⟨.block, [], []⟩] .start
  otherwise : Opens .block .start r" else {" [] [] [⟨.block, [], []⟩] .start
  noObject : Opens .block .start
    r#"if (input === null || typeof input !== "object" || Array.isArray(input)) {"# []
    ["input", "input", "Array", "input"] [⟨.block, [], []⟩] .start
  noField : Reads .group .start "null, " [] [] .start
  out : Reads .block .start "const out = {};" ["out"] [] .start
  result : Reads .block .start "return out;" [] ["out"] .start
  function : Reads .block .start "export function " [] [] .naming
  input : Opens .block .titled r"(input) {" [] [] [⟨.block, [], []⟩, ⟨.head, ["input"], []⟩]
    .start

set_option maxRecDepth 1000 in
instance validatorTexts : ValidatorTexts := by
  constructor <;> exact opens_literal rfl (by decide)

/-! ## Guards -/

def refusalNames : Guard → List String
  | .isText | .minLength _ | .maxLength _ | .oneOf _ => ["value"]
  | .fits _ | .hasFormat _ _ => ["RegExp", "value"]
  | .isNumber | .isWhole => ["Number", "n"]
  | .atLeast _ | .atMost _ => ["n"]

theorem reads_stringItem (value : String) :
    Reads .group .start (string value ++ ", ") [] [] .start :=
  Reads.append (reads_string value rfl rfl) (reads_literal rfl (by decide))

theorem reads_constructor (p : Pattern) :
    Reads .group .other p.constructor [] ["RegExp"] .other := by
  have hstring (value : String) : Reads .group .start (string value) [] [] .other :=
    reads_string value rfl rfl
  unfold Pattern.constructor
  split
  · exact ValidatorTexts.pattern.fill ((hstring _).fills (.inl rfl) rfl) (.inl rfl)
  · have hstrings : Reads .group .start (string p.source ++ ", " ++ string p.flags) [] [] .other :=
      (reads_stringItem _).append (hstring _)
    have htext : "new RegExp(" ++ string p.source ++ ", " ++ string p.flags ++ ")" =
        "new RegExp(" ++ (string p.source ++ ", " ++ string p.flags) ++ ")" := by
      simp only [String.append_assoc]
    rw [htext]
    exact ValidatorTexts.pattern.fill (hstrings.fills (.inl rfl) rfl) (.inl rfl)

/-- The test of a guard uses the value or the number that was made from it, and
at most one more name that stands for something built in. -/
theorem fills_refusal (g : Guard) : Fills .block .start (refusal g) (refusalNames g) := by
  have hnot : Reads .group .start "!" [] [] .other := reads_literal rfl (by decide)
  have htest (p : Pattern) : Fills .block .start ("!" ++ p.constructor ++ ".test(value)")
      ["RegExp", "value"] :=
    ((hnot.append (reads_constructor p)).append ValidatorTexts.matching).fills (.inl rfl) rfl
  cases g with
  | isText => exact ValidatorTexts.text.fills (.inl rfl) rfl
  | minLength x => exact ValidatorTexts.shorter.fills_number rfl x
  | maxLength x => exact ValidatorTexts.longer.fills_number rfl x
  | oneOf values =>
      exact ((hnot.append (reads_strings values rfl (.inl rfl))).append
        ValidatorTexts.listed).fills (.inl rfl) rfl
  | fits p => exact htest p
  | hasFormat _ p => exact htest p
  | isNumber => exact ValidatorTexts.finite.fills (.inl rfl) rfl
  | isWhole => exact ValidatorTexts.whole.fills (.inl rfl) rfl
  | atLeast x => exact ValidatorTexts.less.fills_number rfl x
  | atMost x => exact ValidatorTexts.greater.fills_number rfl x

/-- A failure that is thrown uses the class of failures only. -/
theorem reads_throwFailure {field : String} (message : String) {b : Before}
    (hb : b = .other ∨ b = .start) (h : Reads .group .start (field ++ ", ") [] [] .start) :
    Reads .block b (throwFailure field message) [] ["ValidationFailure"] .start := by
  have hopen : Opens .block b "throw new ValidationFailure(" [] ["ValidationFailure"]
      [⟨.group, [], []⟩] .start := by
    rcases hb with rfl | rfl
    · exact ValidatorTexts.failure
    · exact ValidatorTexts.failureFirst
  have hmessage : Reads .group .start (string message) [] [] .other := reads_string message rfl rfl
  have hcall :=
    (hopen.fill ((h.append hmessage).fills (.inl rfl) rfl) (.inl rfl)).append reads_semicolon
  have htext : throwFailure field message =
      "throw new ValidationFailure(" ++ (field ++ ", " ++ string message) ++ ")" ++ ";" := by
    unfold throwFailure
    simp only [String.append_assoc]
    rfl
  rw [htext]
  exact hcall

theorem scoped_guardLine (field : String) (g : Guard) :
    Scoped .block [guardLine field g] [] (refusalNames g ++ ["ValidationFailure"]) := by
  have hcondition := ValidatorTexts.condition.fill (fills_refusal g) (.inl rfl)
  have hspace : Reads .block .other " " [] [] .other := reads_literal rfl (by decide)
  have hthrow : Reads .block .other (throwFailure (string field) (g.message field)) []
      ["ValidationFailure"] .start := reads_throwFailure _ (.inl rfl) (reads_stringItem field)
  have hline : "if (" ++ refusal g ++ ") " ++ throwFailure (string field) (g.message field) =
      "if (" ++ refusal g ++ ")" ++ (" " ++ throwFailure (string field) (g.message field)) := by
    simp only [String.append_assoc]
    rfl
  rw [guardLine, hline]
  exact scoped_line (hcondition.append (hspace.append hthrow))

/-! ## Checks -/

theorem scoped_storeLine (field : String) {value : String} {names : List String}
    (h : Reads .block .other (" = " ++ value ++ ";") [] names .start) :
    Scoped .block [storeLine field value] [] ("out" :: names) := by
  have hfield : Reads .group .start (string field) [] [] .other := reads_string field rfl rfl
  have hstore := (ValidatorTexts.output.fill (hfield.fills (.inl rfl) rfl) (.inr rfl)).append h
  have hline : "out[" ++ string field ++ "] = " ++ value ++ ";" =
      "out[" ++ string field ++ "]" ++ (" = " ++ value ++ ";") := by
    simp only [String.append_assoc]
    rfl
  rw [storeLine, hline]
  exact scoped_line hstore

theorem scoped_absentLine (c : Check) :
    Scoped .block [absentLine c] [] [if c.optional then "out" else "ValidationFailure"] := by
  unfold absentLine
  split
  · exact scoped_storeLine c.field ValidatorTexts.storeNull
  · exact scoped_line (reads_throwFailure _ (.inr rfl) (reads_stringItem c.field))

def presentDeclared (c : Check) : List String :=
  match c.kind with
  | .integer | .number => ["n"]
  | .text | .boolean | .passthrough => []

def presentNames (c : Check) : List String :=
  let guards := c.guards.flatMap fun g => refusalNames g ++ ["ValidationFailure"]
  match c.kind with
  | .text | .passthrough => guards ++ ["out", "value"]
  | .integer | .number => ["Number", "value"] ++ guards ++ ["out", "n"]
  | .boolean => guards ++ ["out", "Boolean", "value"]

/-- What the code for a value that is present declares and uses, for each kind
of check. -/
theorem scoped_presentLines (c : Check) :
    Scoped .block (presentLines c) (presentDeclared c) (presentNames c) := by
  have hguards : Scoped .block (c.guards.map (guardLine c.field)) []
      (c.guards.flatMap fun g => refusalNames g ++ ["ValidationFailure"]) := by
    rw [List.map_eq_flatMap]
    exact scoped_flatMap_using fun g _ => scoped_guardLine c.field g
  unfold presentLines presentDeclared presentNames
  cases c.kind with
  | text | passthrough => exact hguards.append (scoped_storeLine c.field ValidatorTexts.storeValue)
  | integer | number =>
      exact ((scoped_line ValidatorTexts.number).append hguards).append
        (scoped_storeLine c.field ValidatorTexts.storeNumber)
  | boolean => exact hguards.append (scoped_storeLine c.field ValidatorTexts.storeBoolean)

/-- The names that a check uses and does not declare: its own names are the
value and, for a number, what the value is turned into. -/
def checkNames (c : Check) : List String :=
  ["input", "undefined", if c.optional then "out" else "ValidationFailure"]
    ++ (presentNames c).filter (· ∉ "value" :: presentDeclared c)

/-- The code of a check is a block. -/
theorem scoped_checkCode (c : Check) : Scoped .block (checkCode c) [] (checkNames c) := by
  have hvalue : Scoped .block [.line ("const value = input[" ++ string c.field ++ "];")] ["value"]
      ["input"] := by
    have hfield : Reads .group .start (string c.field) [] [] .other := reads_string _ rfl rfl
    have hline : "const value = input[" ++ string c.field ++ "];" =
        "const value = input[" ++ string c.field ++ "]" ++ ";" := by
      simp only [String.append_assoc]
      rfl
    rw [hline]
    exact scoped_line
      ((ValidatorTexts.value.fill (hfield.fills (.inl rfl) rfl) (.inr rfl)).append reads_semicolon)
  have hbranches : Scoped .block
      ([.opening r"if (value === undefined || value === null) {", absentLine c,
        .reopening r"} else {"] ++ presentLines c ++ [.closing r"}"]) []
      (["value", "undefined", "value", if c.optional then "out" else "ValidationFailure"]
        ++ (presentNames c).filter (· ∉ presentDeclared c)) :=
    .branches (scoped_absentLine c) (scoped_presentLines c) ValidatorTexts.absent
      ValidatorTexts.otherwise (closes_block rfl) rfl
  have hopen : Opens .block .start r"{" [] [] [⟨.block, [], []⟩] .start :=
    opens_literal rfl (by decide)
  -- The block binds `value` itself, so it is not among the names it takes from outside.
  have hnames : checkNames c = [] ++ (["input"] ++ (["value", "undefined", "value",
      if c.optional then "out" else "ValidationFailure"]
        ++ (presentNames c).filter (· ∉ presentDeclared c))).filter (· ∉ ["value"] ++ []) := by
    unfold checkNames
    cases c.optional <;> simp [List.filter_filter]
  rw [hnames]
  exact (hvalue.append hbranches).block hopen (closes_block rfl)

theorem scoped_objectCode :
    Scoped .block objectCode [] ["input", "input", "Array", "input", "ValidationFailure"] := by
  have hthrow : Scoped .block [.line (throwFailure "null" notAnObject.message)] []
      ["ValidationFailure"] :=
    scoped_line (reads_throwFailure _ (.inr rfl) ValidatorTexts.noField)
  exact hthrow.block ValidatorTexts.noObject (closes_block rfl)

/-- A function that the module exports, given how its parameters are read. -/
theorem Scoped.function {name tail : String} {cs : List Char} {params ds us : List String}
    {ps : List Piece} (h : Scoped .block ps ds us) (hname : IsIdentifier name)
    (htail : tail = String.ofList ('(' :: cs))
    (htitle : Opens .block .titled tail [] [] [⟨.block, [], []⟩, ⟨.head, params, []⟩] .start) :
    Scoped .block (block ("export function " ++ name ++ tail) ps r"}") [name]
      ((us.filter (· ∉ ds)).filter (· ∉ params)) := by
  have hopen := ValidatorTexts.function.opens
    (htitle.declare hname rfl htail (by decide) (.inr ⟨rfl, rfl⟩))
  rw [← String.append_assoc] at hopen
  exact h.block hopen closes_body

/-! ## Validators -/

def guardUses (g : Guard) : List String :=
  (match g with
    | .fits _ | .hasFormat _ _ => ["RegExp"]
    | .isNumber | .isWhole => ["Number"]
    | _ => []) ++ ["ValidationFailure"]

def checkUses (c : Check) : List String :=
  ["undefined"] ++ (if c.optional then [] else ["ValidationFailure"])
    ++ match c.kind with
      | .text | .passthrough => c.guards.flatMap guardUses
      | .integer | .number => "Number" :: c.guards.flatMap guardUses
      | .boolean => ["Boolean"]

/-- The names that a validator with some checks uses of what is around it. -/
def validatorUses (checks : List Check) : List String :=
  ["Array", "ValidationFailure"] ++ checks.flatMap checkUses

theorem filter_refusalNames (g : Guard) {locals : List String} (hvalue : "value" ∈ locals)
    (hn : "n" ∈ refusalNames g → "n" ∈ locals)
    (hlocals : ∀ name ∈ ["RegExp", "Number", "ValidationFailure"], name ∉ locals) :
    (refusalNames g ++ ["ValidationFailure"]).filter (· ∉ locals) = guardUses g := by
  simp only [List.mem_cons, List.not_mem_nil, or_false, forall_eq_or_imp, forall_eq] at hlocals
  obtain ⟨hregexp, hnumber, hfailure⟩ := hlocals
  cases g
  all_goals simp_all [refusalNames, guardUses]

theorem not_mem_refusalNames {c : Check} {g : Guard} (h : g ∈ c.textGuards) :
    "n" ∉ refusalNames g := by
  simp only [Check.textGuards, List.mem_append, List.mem_singleton, Option.mem_toList,
    Option.map_eq_some_iff] at h
  rcases h with ((((rfl | ⟨_, -, rfl⟩) | ⟨_, -, rfl⟩) | ⟨_, -, rfl⟩) | ⟨_, -, rfl⟩) | ⟨_, -, rfl⟩
  all_goals simp [refusalNames]

/-- With the record and the input taken out, which a validator declares itself,
the names of a check are those that it uses of what is around the validator. -/
theorem filter_checkNames (c : Check) :
    ((checkNames c).filter (· ∉ ["out"])).filter (· ∉ ["input"]) = checkUses c := by
  have hguards {locals : List String} (hvalue : "value" ∈ locals)
      (hn : ∀ g ∈ c.guards, "n" ∈ refusalNames g → "n" ∈ locals)
      (hlocals : ∀ name ∈ ["RegExp", "Number", "ValidationFailure"], name ∉ locals) :
      (c.guards.flatMap fun g => refusalNames g ++ ["ValidationFailure"]).filter (· ∉ locals) =
        c.guards.flatMap guardUses := by
    rw [List.filter_flatMap]
    exact List.flatMap_congr fun g hg => filter_refusalNames g hvalue (hn g hg) hlocals
  have hfront : ([("input" : String), "undefined", if c.optional then "out" else
      "ValidationFailure"].filter (· ∉ ["out"] ++ ["input"])) =
      ["undefined"] ++ if c.optional then [] else ["ValidationFailure"] := by
    cases c.optional <;> rfl
  unfold checkNames checkUses
  rw [List.filter_filter_not_mem, List.filter_append, hfront, List.filter_filter_not_mem]
  unfold presentNames presentDeclared
  congr 1
  cases hkind : c.kind with
  | text =>
      -- Only checks of numbers declare `n`, and no guard of a text uses it.
      have htext : ∀ g ∈ c.guards, "n" ∉ refusalNames g := by
        rw [Check.guards, hkind]
        exact fun g hg => not_mem_refusalNames hg
      simp only [List.filter_append]
      rw [hguards (by decide) (fun g hg hn => absurd hn (htext g hg)) (by decide)]
      simp
  | passthrough | boolean =>
      simp [Check.guards, hkind]
  | integer | number =>
      simp only [List.filter_append]
      rw [hguards (by decide) (fun _ _ _ => by decide) (by decide)]
      simp

/-- A validator declares its own name and no other. -/
theorem scoped_validator {schema : String} (h : IsName schema) (checks : List Check) :
    Scoped .block (validator schema checks) [validatorName schema] (validatorUses checks) := by
  have hchecks := scoped_flatMap_using fun c (_ : c ∈ checks) => scoped_checkCode c
  have hcode := ((scoped_objectCode.append (scoped_line ValidatorTexts.out)).append hchecks).append
    (scoped_line ValidatorTexts.result)
  have hnames : validatorUses checks = List.filter (· ∉ ["input"]) (List.filter (· ∉ ["out"])
      (["input", "input", "Array", "input", "ValidationFailure"] ++ [] ++ checks.flatMap checkNames
        ++ ["out"])) := by
    simp only [List.filter_append, List.filter_flatMap, filter_checkNames]
    simp [validatorUses]
  rw [hnames]
  exact Scoped.function hcode (isIdentifier_validatorName h) rfl ValidatorTexts.input

end BlockLang.Server
