import BlockLang.Proofs.Script.Reading
import BlockLang.Server.Validator

/-! # The trees of validators

A validator is written piece by piece as text. Here the tree of each piece is stated, and the text
is shown to be read as the tree, whatever names, messages and bounds stand in it. What the tokens of
a piece throw is found with it, in the order of the text.
-/

namespace BlockLang

/-- What is said of a record: the field at fault, if there is one, and a
message. -/
structure Report where
  field : Option String
  message : String
  deriving DecidableEq, Repr

def Failure.report (f : Failure) : Report := ⟨f.field, f.message⟩

def Guard.report (field : String) (g : Guard) : Report := ⟨some field, g.message field⟩

def Check.absenceReports (c : Check) : List Report :=
  if c.optional then [] else [⟨some c.field, missingMessage c.field⟩]

/-- Whether the bounds of a check are numbers that a double has. -/
def Check.Bounded (c : Check) : Prop :=
  ∀ x, c.min = some x ∨ c.max = some x → x.Representable

def Guard.Bounded : Guard → Prop
  | .minLength x | .maxLength x | .atLeast x | .atMost x => x.Representable
  | _ => True

/-- The guards of a check have the bounds of the check, so they are bounded if
the check is. -/
theorem Check.Bounded.guards {c : Check} (h : c.Bounded) : ∀ g ∈ c.guards, g.Bounded := by
  intro g hg
  have hmin : ∀ x, c.min = some x → x.Representable := fun x hx => h x (.inl hx)
  have hmax : ∀ x, c.max = some x → x.Representable := fun x hx => h x (.inr hx)
  -- Integers and numbers share their guards about bounds.
  have hnumber : ∀ g ∈ c.numberGuards, g.Bounded := by
    intro g hg
    simp only [numberGuards, List.mem_append, List.mem_singleton, Option.mem_toList,
      Option.map_eq_some_iff] at hg
    rcases hg with ((rfl | hwhole) | ⟨x, hx, rfl⟩) | ⟨x, hx, rfl⟩
    · trivial
    · split at hwhole
      · rw [List.mem_singleton.mp hwhole]
        trivial
      · cases hwhole
    · exact hmin x hx
    · exact hmax x hx
  unfold Check.guards at hg
  cases hkind : c.kind <;> simp only [hkind] at hg
  case text =>
    simp only [textGuards, List.mem_append, List.mem_singleton, Option.mem_toList,
      Option.map_eq_some_iff] at hg
    rcases hg with ((((rfl | ⟨x, hx, rfl⟩) | ⟨x, hx, rfl⟩) | ⟨_, _, rfl⟩) | ⟨_, _, rfl⟩) |
      ⟨_, _, rfl⟩
    · trivial
    · exact hmin x hx
    · exact hmax x hx
    all_goals trivial
  case integer => exact hnumber g hg
  case number => exact hnumber g hg
  case boolean => cases hg
  case passthrough => cases hg

namespace Script

open Server

/-! ## Trees -/

def numberTree (x : Double) : Expr :=
  let literal : Expr := .number (.finite ⟨false, x.steps⟩)
  if x.negative then .signed .minus literal else literal

def patternTree (p : Pattern) : Expr :=
  .construct "RegExp" (if p.flags.isEmpty then [.string p.source]
    else [.string p.source, .string p.flags])

def refusalTree : Guard → Expr
  | .isText => .binary .strictUnequal (.signed .typeOf (.name "value")) (.string "string")
  | .minLength min => .binary .less (.member (.name "value") "length") (numberTree min)
  | .maxLength max => .binary .greater (.member (.name "value") "length") (numberTree max)
  | .oneOf values =>
    .signed .not (.call (.member (.array (values.map .string)) "includes") [.name "value"])
  | .fits pattern | .hasFormat _ pattern =>
    .signed .not (.call (.member (patternTree pattern) "test") [.name "value"])
  | .isNumber => .signed .not (.call (.member (.name "Number") "isFinite") [.name "n"])
  | .isWhole => .signed .not (.call (.member (.name "Number") "isInteger") [.name "n"])
  | .atLeast min => .binary .less (.name "n") (numberTree min)
  | .atMost max => .binary .greater (.name "n") (numberTree max)

def failureTree (field : Expr) (message : String) : Stmt :=
  .throwing (.construct "ValidationFailure" [field, .string message])

def guardTree (field : String) (guard : Guard) : Stmt :=
  .condition (refusalTree guard) (failureTree (.string field) (guard.message field)) (.block [])

def storeTree (field : String) (value : Expr) : Stmt := .store "out" (.string field) value

def absentTree (c : Check) : Stmt :=
  if c.optional then storeTree c.field .null
  else failureTree (.string c.field) (missingMessage c.field)

def presentTrees (c : Check) : List Stmt :=
  let guards := c.guards.map (guardTree c.field)
  match c.kind with
  | .text | .passthrough => guards ++ [storeTree c.field (.name "value")]
  | .integer | .number =>
    .constant "n" (.call (.name "Number") [.name "value"]) :: guards
      ++ [storeTree c.field (.name "n")]
  | .boolean => guards ++ [storeTree c.field (.call (.name "Boolean") [.name "value"])]

def absenceTree : Expr :=
  .binary .or (.binary .strictEqual (.name "value") (.name "undefined"))
    (.binary .strictEqual (.name "value") .null)

def checkTree (c : Check) : Stmt :=
  .block [.constant "value" (.index (.name "input") (.string c.field)),
    .condition absenceTree (.block [absentTree c]) (.block (presentTrees c))]

def noObjectTree : Expr :=
  .binary .or (.binary .strictEqual (.name "input") .null)
    (.binary .or (.binary .strictUnequal (.signed .typeOf (.name "input")) (.string "object"))
      (.call (.member (.name "Array") "isArray") [.name "input"]))

def objectTree : Stmt :=
  .condition noObjectTree (.block [failureTree .null notAnObject.message]) (.block [])

/-- The validator of a schema with the given checks, as a function of the script
language. -/
def validatorTree (schema : String) (checks : List Check) : Function where
  name := Code.validatorName schema
  parameter := "input"
  body := objectTree :: .constant "out" .object :: checks.map checkTree
    ++ [.returning (.name "out")]

/-! ## Reading what is thrown -/

def report? : List Token → Option Report
  | .keyword .construct :: .name callee :: .mark .parenOpen :: field :: .mark .comma ::
      .string message :: .mark .parenClose :: .mark .semicolon :: _ =>
    if callee = "ValidationFailure" then
      match field with
      | .keyword .null => some ⟨none, message⟩
      | .string name => some ⟨some name, message⟩
      | _ => none
    else none
  | _ => none

/-- What the statements that throw report, from the first to the last. -/
def thrown : List Token → List (Option Report)
  | [] => []
  | t :: rest => if t = .keyword .throwing then report? rest :: thrown rest else thrown rest

/-- Whether some tokens throw some reports, whatever follows them. -/
def Reports (ts : List Token) (rs : List Report) : Prop :=
  ∀ us, thrown (ts ++ us) = rs.map some ++ thrown us

theorem Reports.append {ts us : List Token} {rs qs : List Report} (ht : Reports ts rs)
    (hu : Reports us qs) : Reports (ts ++ us) (rs ++ qs) := by
  intro vs
  rw [List.append_assoc, ht, hu, List.map_append, List.append_assoc]

theorem reports_nil_of_notMem {ts : List Token} (h : .keyword .throwing ∉ ts) : Reports ts [] := by
  intro us
  induction ts with
  | nil => rfl
  | cons t ts ih =>
      simp only [List.mem_cons, not_or] at h
      rw [List.cons_append, thrown, if_neg (Ne.symm h.1)]
      exact ih h.2

/-! ## Tests -/

def Token.isKeyword : Token → Bool
  | .keyword _ => true
  | _ => false

/-- A character that begins no name begins no keyword. -/
theorem readToken_ne_keyword {c : Char} (h : isNameStart c = false) (rest : List Char)
    (k : Keyword) : (readToken c rest).1 ≠ .keyword k := by
  unfold readToken
  rw [if_neg (by rw [h]; decide)]
  split
  · simp only [numeral]
    split
    · simp
    · split <;> simp
  · split
    · split <;> simp
    · split
      next found text token hfind =>
        have hall : punctuators.all (!·.2.isKeyword) = true := by decide
        have htoken := List.all_eq_true.mp hall _ (List.mem_of_find?_eq_some hfind)
        rintro rfl
        cases htoken
      next => simp

theorem keyword_notMem_tokensFrom {cs : List Char} (h : ∀ c ∈ cs, isNameStart c = false)
    (skip : Nat) (k : Keyword) : .keyword k ∉ tokensFrom skip cs := by
  induction cs generalizing skip with
  | nil => simp [tokensFrom]
  | cons c cs ih =>
      obtain ⟨hc, hcs⟩ := List.forall_mem_cons.mp h
      cases skip with
      | succ skip => exact ih hcs skip
      | zero =>
          by_cases hblank : isBlank c = true
          · rw [tokensFrom, if_pos hblank]
            exact ih hcs 0
          · rw [tokensFrom_cons (by simpa using hblank), List.mem_cons, not_or]
            exact ⟨(readToken_ne_keyword hc cs k).symm, ih hcs _⟩

theorem keyword_notMem_itemTokens (values : List String) (k : Keyword) :
    .keyword k ∉ itemTokens values := by
  induction values using itemTokens.induct with
  | case1 => simp [itemTokens]
  | case2 s => simp [itemTokens]
  | case3 s rest hne ih => simpa [itemTokens] using ih

/-- Whether a text, with the parenthesis behind it, throws nothing, and is read
as a test if the bounds in it are numbers that a double has. -/
def WritesTest (bounded : Prop) (text : String) (e : Expr) : Prop :=
  ∃ ts, Lexes (text ++ ")") (ts ++ [.mark .parenClose]) ∧ (bounded → SpellsTest ts e) ∧
    .keyword .throwing ∉ ts

/-- A test that ends in a number is read if it is read with a number of either
sign. -/
theorem writesTest_number {front : String} {ts : List Token} (x : Double) (tree : Expr → Expr)
    (hfront : Lexes front ts) (hthrow : .keyword .throwing ∉ ts)
    (h : ∀ fuel rest value,
      Expr.readUpTo (fuel + 16) .parenClose (ts ++ .number value :: .mark .parenClose :: rest) =
          some (tree (.number value), rest) ∧
        Expr.readUpTo (fuel + 16) .parenClose
            (ts ++ .mark .minus :: .number value :: .mark .parenClose :: rest) =
          some (tree (.signed .minus (.number value)), rest)) :
    WritesTest x.Representable (front ++ Code.number x) (tree (numberTree x)) := by
  refine ⟨ts ++ tokens (Code.number x), ?_, fun hx => SpellsTest.of_read ?_, ?_⟩
  · rw [String.append_assoc, List.append_assoc]
    exact hfront.append (lexes_before (fun hmem => (number_chars _ hmem).1 rfl) (by decide))
  · intro fuel rest
    obtain ⟨hplus, hminus⟩ := h fuel rest (.finite ⟨false, x.steps⟩)
    rw [tokens_number hx]
    by_cases hnegative : x.negative = true
    · simpa [numberTokens, numberTree, hnegative] using hminus
    · simpa [numberTokens, numberTree, hnegative] using hplus
  · rw [List.mem_append, not_or]
    exact ⟨hthrow, keyword_notMem_tokensFrom (fun c hc => (number_chars c hc).2) 0 _⟩

/-- The items of an array are read with fuel for each of them, and some for the
item itself. -/
theorem readItems_itemTokens (values : List String) {fuel : Nat}
    (hfuel : values.length + 6 ≤ fuel) (rest : List Token) :
    Expr.readItems fuel .bracketClose (itemTokens values ++ rest) =
      some (values.map .string, rest) := by
  induction values generalizing fuel with
  | nil =>
      obtain ⟨fuel, rfl⟩ : ∃ n, fuel = n + 1 := ⟨fuel - 1, by omega⟩
      rfl
  | cons s values ih =>
      simp only [List.length_cons] at hfuel
      obtain ⟨fuel, rfl⟩ : ∃ n, fuel = n + 6 := ⟨fuel - 6, by omega⟩
      cases values with
      | nil => rfl
      | cons s' values =>
          have hmore := ih (show (s' :: values).length + 6 ≤ fuel + 5 by omega)
          have hfirst : Expr.readItems (fuel + 6) .bracketClose
              (itemTokens (s :: s' :: values) ++ rest) =
              (Expr.readItems (fuel + 5) .bracketClose (itemTokens (s' :: values) ++ rest)).bind
                fun found => some (.string s :: found.1, found.2) := rfl
          rw [hfirst, hmore]
          rfl

theorem length_lt_itemTokens (values : List String) :
    values.length < (itemTokens values).length := by
  induction values with
  | nil => decide
  | cons s values ih =>
      cases values with
      | nil => exact Nat.lt_add_one 1
      | cons s' values =>
          simp only [itemTokens, List.length_cons] at ih ⊢
          omega

theorem readUpTo_not {fuel : Nat} {ts rest : List Token} {e : Expr}
    (h : Expr.readSigned fuel ts = some (e, .mark .parenClose :: rest)) :
    Expr.readUpTo (fuel + 3) .parenClose (.mark .not :: ts) = some (.signed .not e, rest) := by
  have hsigned : Expr.readSigned (fuel + 1) (.mark .not :: ts) =
      some (.signed .not e, .mark .parenClose :: rest) := by
    simp only [Expr.readSigned, sign?, h]
    rfl
  rw [Expr.readUpTo, Expr.read, Expr.readComparison, hsigned]
  rfl

/-- A negated call on what begins with no sign. -/
theorem spellsTest_not_call (t : Token) (ts : List Token) {e : Expr} {method : String}
    (hsign : sign? t = none)
    (h : ∀ fuel rest, ts.length + 6 ≤ fuel →
      Expr.readPrimary fuel (t :: (ts ++ rest)) = some (e, rest)) :
    SpellsTest (.mark .not :: t :: (ts ++ [.mark .point, .name method, .mark .parenOpen,
        .name "value", .mark .parenClose]))
      (.signed .not (.call (.member e method) [.name "value"])) := by
  intro fuel rest hfuel
  simp only [List.length_append, List.length_cons, List.length_nil] at hfuel
  obtain ⟨fuel, rfl⟩ : ∃ n, fuel = n + 12 := ⟨fuel - 12, by omega⟩
  simp only [List.cons_append, List.append_assoc, List.nil_append]
  apply readUpTo_not
  simp only [Expr.readSigned, hsign, h _ _ (show ts.length + 6 ≤ fuel + 8 by omega)]
  rfl

theorem writesTest_oneOf {bounded : Prop} (values : List String) :
    WritesTest bounded ("!" ++ Code.strings values ++ ".includes(value)")
      (refusalTree (.oneOf values)) := by
  have hopen : Lexes "![" [.mark .not, .mark .bracketOpen] := lexes_of_tokens (by decide)
  have hcall : Lexes ".includes(value))" [.mark .point, .name "includes", .mark .parenOpen,
      .name "value", .mark .parenClose, .mark .parenClose] := lexes_of_tokens (by decide)
  -- The parts are cut so that each of them ends in a character that stands alone.
  have htext : "!" ++ Code.strings values ++ ".includes(value)" ++ ")" =
      "![" ++ (String.intercalate ", " (values.map Code.string) ++ "]") ++
        ".includes(value))" := by
    apply String.ext
    simp [Code.strings]
  refine ⟨_, ?_, fun _ => spellsTest_not_call (.mark .bracketOpen) (itemTokens values) rfl ?_, ?_⟩
  · rw [htext]
    simpa using (hopen.append (lexes_items values)).append hcall
  · intro fuel rest hfuel
    have hlength := length_lt_itemTokens values
    obtain ⟨fuel, rfl⟩ : ∃ n, fuel = n + 1 := ⟨fuel - 1, by omega⟩
    rw [Expr.readPrimary, readItems_itemTokens values (by omega)]
    rfl
  · simp [keyword_notMem_itemTokens]

theorem writesTest_pattern {bounded : Prop} (p : Pattern) :
    WritesTest bounded ("!" ++ p.constructor ++ ".test(value)") (refusalTree (.fits p)) := by
  have hopen : Lexes "!new RegExp(" [.mark .not, .keyword .construct, .name "RegExp",
      .mark .parenOpen] := lexes_of_tokens (by decide)
  have hcall : Lexes ").test(value))" [.mark .parenClose, .mark .point, .name "test",
      .mark .parenOpen, .name "value", .mark .parenClose, .mark .parenClose] :=
    lexes_of_tokens (by decide)
  have hcomma : Lexes ", " [.mark .comma] := lexes_of_tokens (by decide)
  unfold Pattern.constructor refusalTree patternTree
  -- The flags are written only when there are any, so the call has one argument or two.
  by_cases hflags : p.flags.isEmpty = true
  · simp only [if_pos hflags]
    refine ⟨_, ?_, fun _ => spellsTest_not_call (.keyword .construct)
      [.name "RegExp", .mark .parenOpen, .string p.source, .mark .parenClose] rfl ?_, by simp⟩
    · have htext : "!" ++ ("new RegExp(" ++ Code.string p.source ++ ")") ++ ".test(value)" ++ ")" =
          "!new RegExp(" ++ Code.string p.source ++ ").test(value))" := by
        apply String.ext
        simp
      rw [htext]
      exact (hopen.append (lexes_string p.source)).append hcall
    · intro fuel rest hfuel
      obtain ⟨fuel, rfl⟩ : ∃ n, fuel = n + 10 := ⟨fuel - 10, by simp at hfuel; omega⟩
      rfl
  · simp only [if_neg hflags]
    refine ⟨_, ?_, fun _ => spellsTest_not_call (.keyword .construct)
      [.name "RegExp", .mark .parenOpen, .string p.source, .mark .comma, .string p.flags,
        .mark .parenClose] rfl ?_, by simp⟩
    · have htext : "!" ++ ("new RegExp(" ++ Code.string p.source ++ ", " ++ Code.string p.flags
          ++ ")") ++ ".test(value)" ++ ")" = "!new RegExp(" ++ Code.string p.source ++ ", "
          ++ Code.string p.flags ++ ").test(value))" := by
        apply String.ext
        simp
      rw [htext]
      exact (((hopen.append (lexes_string p.source)).append hcomma).append
        (lexes_string p.flags)).append hcall
    · intro fuel rest hfuel
      obtain ⟨fuel, rfl⟩ : ∃ n, fuel = n + 12 := ⟨fuel - 12, by simp at hfuel; omega⟩
      rfl

/-- The test of each guard is read as its tree. -/
theorem writesTest_refusal (g : Guard) : WritesTest g.Bounded (refusal g) (refusalTree g) := by
  cases g with
  | isText =>
      have hfront : Lexes "typeof value !== " [.keyword .typeOf, .name "value",
          .mark .strictUnequal] := lexes_of_tokens (by decide)
      have hclose : Lexes ")" [.mark .parenClose] := lexes_of_tokens (by decide)
      refine ⟨[.keyword .typeOf, .name "value", .mark .strictUnequal, .string "string"],
        (hfront.append (lexes_string "string")).append hclose, fun _ => ?_, by decide⟩
      exact SpellsTest.of_read fun _ _ => rfl
  | minLength min =>
      have hfront : Lexes "value.length < " [.name "value", .mark .point, .name "length",
          .mark .less] := lexes_of_tokens (by decide)
      exact writesTest_number min (.binary .less (.member (.name "value") "length")) hfront
        (by decide) fun _ _ _ => ⟨rfl, rfl⟩
  | maxLength max =>
      have hfront : Lexes "value.length > " [.name "value", .mark .point, .name "length",
          .mark .greater] := lexes_of_tokens (by decide)
      exact writesTest_number max (.binary .greater (.member (.name "value") "length")) hfront
        (by decide) fun _ _ _ => ⟨rfl, rfl⟩
  | oneOf values => exact writesTest_oneOf values
  | fits pattern => exact writesTest_pattern pattern
  | hasFormat format pattern => exact writesTest_pattern pattern
  | isNumber =>
      refine ⟨[.mark .not, .name "Number", .mark .point, .name "isFinite", .mark .parenOpen,
        .name "n", .mark .parenClose], lexes_of_tokens (by decide), fun _ => ?_, by decide⟩
      exact SpellsTest.of_read fun _ _ => rfl
  | isWhole =>
      refine ⟨[.mark .not, .name "Number", .mark .point, .name "isInteger", .mark .parenOpen,
        .name "n", .mark .parenClose], lexes_of_tokens (by decide), fun _ => ?_, by decide⟩
      exact SpellsTest.of_read fun _ _ => rfl
  | atLeast min =>
      have hfront : Lexes "n < " [.name "n", .mark .less] := lexes_of_tokens (by decide)
      exact writesTest_number min (.binary .less (.name "n")) hfront (by decide)
        fun _ _ _ => ⟨rfl, rfl⟩
  | atMost max =>
      have hfront : Lexes "n > " [.name "n", .mark .greater] := lexes_of_tokens (by decide)
      exact writesTest_number max (.binary .greater (.name "n")) hfront (by decide)
        fun _ _ _ => ⟨rfl, rfl⟩

/-! ## Lines -/

/-- Whether pieces of code throw some reports, and are read as some statements
if the bounds in them are numbers that a double has. -/
def Writes (bounded : Prop) (ps : List Code.Piece) (ss : List Stmt) (reports : List Report) :
    Prop :=
  ∃ ts, LexesAs ps ts ∧ (bounded → SpellsAll ts ss) ∧ Reports ts reports

section

variable {bounded : Prop} {ps qs : List Code.Piece} {rs ss : List Stmt}
  {reports reports' : List Report} {ts : List Token}

theorem Writes.append (hp : Writes bounded ps rs reports) (hq : Writes bounded qs ss reports') :
    Writes bounded (ps ++ qs) (rs ++ ss) (reports ++ reports') := by
  obtain ⟨ts, hlex, hspell, hts⟩ := hp
  obtain ⟨us, hlex', hspell', hus⟩ := hq
  exact ⟨ts ++ us, hlex.append hlex', fun h => (hspell h).append (hspell' h), hts.append hus⟩

theorem Writes.mono {bounded' : Prop} (h : Writes bounded ps ss reports)
    (himp : bounded' → bounded) : Writes bounded' ps ss reports := by
  obtain ⟨ts, hlex, hspell, hts⟩ := h
  exact ⟨ts, hlex, fun h => hspell (himp h), hts⟩

theorem writes_line {text : String} {s : Stmt} (hlex : Lexes text ts) (hspell : Spells ts s)
    (hts : Reports ts reports) : Writes bounded [.line text] [s] reports :=
  ⟨ts, lexesAs_piece hlex (.inl rfl), fun _ => .singleton hspell, hts⟩

theorem writes_flatMap {α : Type} {as : List α} {f : α → List Code.Piece} {g : α → Stmt}
    {r : α → List Report} (h : ∀ a ∈ as, Writes bounded (f a) [g a] (r a)) :
    Writes bounded (as.flatMap f) (as.map g) (as.flatMap r) := by
  induction as with
  | nil => exact ⟨[], lexesAs_nil, fun _ => .nil, fun _ => rfl⟩
  | cons a as ih =>
      obtain ⟨ha, has⟩ := List.forall_mem_cons.mp h
      exact ha.append (ih has)

def failureTokens (field : Token) (message : String) : List Token :=
  [.keyword .throwing, .keyword .construct, .name "ValidationFailure", .mark .parenOpen, field,
    .mark .comma, .string message, .mark .parenClose, .mark .semicolon]

theorem lexes_throwFailure {field : String} {t : Token} (message : String)
    (h : Lexes (field ++ ", ") [t, .mark .comma]) :
    Lexes (throwFailure field message) (failureTokens t message) := by
  have hfront : Lexes "throw new ValidationFailure(" [.keyword .throwing, .keyword .construct,
      .name "ValidationFailure", .mark .parenOpen] := lexes_of_tokens (by decide)
  have hback : Lexes ");" [.mark .parenClose, .mark .semicolon] := lexes_of_tokens (by decide)
  have htext : throwFailure field message =
      "throw new ValidationFailure(" ++ (field ++ ", ") ++ Code.string message ++ ");" := by
    unfold throwFailure
    rw [← String.append_assoc]
  rw [htext]
  exact ((hfront.append h).append (lexes_string message)).append hback

theorem lexes_field (field : String) :
    Lexes (Code.string field ++ ", ") [.string field, .mark .comma] := by
  have hcomma : Lexes ", " [.mark .comma] := lexes_of_tokens (by decide)
  exact (lexes_string field).append hcomma

theorem spells_failure (field message : String) :
    Spells (failureTokens (.string field) message) (failureTree (.string field) message) :=
  Spells.of_read (by decide) (by decide) fun _ _ => rfl

theorem writes_guardLine (g : Guard) (field : String) :
    Writes g.Bounded [guardLine field g] [guardTree field g] [g.report field] := by
  obtain ⟨ts, hlex, hspell, hthrow⟩ := writesTest_refusal g
  have hfront : Lexes "if (" [.keyword .condition, .mark .parenOpen] :=
    lexes_of_tokens (by decide)
  have hblank : Lexes " " [] := lexes_of_tokens (by decide)
  have htext : "if (" ++ refusal g ++ ") " ++
      throwFailure (Code.string field) (g.message field) =
      "if (" ++ (refusal g ++ ")") ++ " " ++
        throwFailure (Code.string field) (g.message field) := by
    apply String.ext
    simp
  have hline := ((hfront.append hlex).append hblank).append
    (lexes_throwFailure (g.message field) (lexes_field field))
  rw [← htext] at hline
  refine ⟨_, lexesAs_piece hline (.inl rfl), fun h => .singleton ?_, ?_⟩
  · simpa [guardTree] using Spells.condition (hspell h) (spells_failure field (g.message field))
  · refine Reports.append (reports_nil_of_notMem ?_) fun _ => rfl
    simpa using hthrow

theorem writes_storeLine {value : String} {e : Expr} (field : String)
    (hlex : Lexes (value ++ ";") ts)
    (hread : ∀ fuel rest, Expr.readUpTo (fuel + 15) .semicolon (ts ++ rest) = some (e, rest))
    (hts : Reports ts []) : Writes bounded [storeLine field value] [storeTree field e] [] := by
  have hfront : Lexes "out[" [.name "out", .mark .bracketOpen] :=
    lexes_of_tokens (by decide)
  have hassign : Lexes "] = " [.mark .bracketClose, .mark .assign] :=
    lexes_of_tokens (by decide)
  have hline := ((hfront.append (lexes_string field)).append hassign).append hlex
  rw [← String.append_assoc] at hline
  have hspell : Spells (.name "out" :: (.mark .bracketOpen :: .string field ::
      .mark .bracketClose :: .mark .assign :: ts)) (storeTree field e) := by
    refine Spells.of_read (by decide) (by decide) ?_
    intro fuel rest
    have hstore : Stmt.read (fuel + 16) (.name "out" :: (.mark .bracketOpen :: .string field ::
        .mark .bracketClose :: .mark .assign :: ts) ++ rest) =
        (Expr.readUpTo (fuel + 15) .semicolon (ts ++ rest)).bind
          fun found => some (storeTree field found.1, found.2) := rfl
    rw [hstore, hread]
    rfl
  exact writes_line hline hspell hts

/-- The line for a value that is absent throws, or stores a null for an optional
field. -/
theorem writes_absentLine (c : Check) :
    Writes bounded [absentLine c] [absentTree c] c.absenceReports := by
  unfold absentLine absentTree Check.absenceReports
  split
  · have hnull : Lexes ("null" ++ ";") [.keyword .null, .mark .semicolon] :=
      lexes_of_tokens (by decide)
    exact writes_storeLine c.field hnull (fun _ _ => rfl) fun _ => rfl
  · exact writes_line (lexes_throwFailure _ (lexes_field c.field)) (spells_failure c.field _)
      fun _ => rfl

/-- The lines for a value that is present are read as their statements. -/
theorem writes_presentLines (c : Check) : Writes c.Bounded (presentLines c) (presentTrees c)
    (c.guards.map (Guard.report c.field)) := by
  have hguards : Writes c.Bounded (c.guards.map (guardLine c.field))
      (c.guards.map (guardTree c.field)) (c.guards.map (Guard.report c.field)) := by
    simp only [List.map_eq_flatMap (f := guardLine c.field),
      List.map_eq_flatMap (f := Guard.report c.field)]
    exact writes_flatMap fun g hg => (writes_guardLine g c.field).mono fun h => h.guards g hg
  have hvalue : Writes c.Bounded [storeLine c.field "value"]
      [storeTree c.field (.name "value")] [] := by
    have hlex : Lexes ("value" ++ ";") [.name "value", .mark .semicolon] :=
      lexes_of_tokens (by decide)
    exact writes_storeLine c.field hlex (fun _ _ => rfl) fun _ => rfl
  have hn : Writes c.Bounded [storeLine c.field "n"] [storeTree c.field (.name "n")] [] := by
    have hlex : Lexes ("n" ++ ";") [.name "n", .mark .semicolon] :=
      lexes_of_tokens (by decide)
    exact writes_storeLine c.field hlex (fun _ _ => rfl) fun _ => rfl
  have hboolean : Writes c.Bounded [storeLine c.field "Boolean(value)"]
      [storeTree c.field (.call (.name "Boolean") [.name "value"])] [] := by
    have hlex : Lexes ("Boolean(value)" ++ ";") [.name "Boolean", .mark .parenOpen, .name "value",
        .mark .parenClose, .mark .semicolon] := lexes_of_tokens (by decide)
    exact writes_storeLine c.field hlex (fun _ _ => rfl) fun _ => rfl
  have hnumber : Writes c.Bounded [.line "const n = Number(value);"]
      [.constant "n" (.call (.name "Number") [.name "value"])] [] := by
    have hlex : Lexes "const n = Number(value);" [.keyword .constant, .name "n", .mark .assign,
        .name "Number", .mark .parenOpen, .name "value", .mark .parenClose, .mark .semicolon] :=
      lexes_of_tokens (by decide)
    exact writes_line hlex (Spells.of_read (by decide) (by decide) fun _ _ => rfl) fun _ => rfl
  rw [← List.append_nil (c.guards.map (Guard.report c.field))]
  unfold presentLines presentTrees
  cases c.kind with
  | text => exact hguards.append hvalue
  | passthrough => exact hguards.append hvalue
  | integer => exact (hnumber.append hguards).append hn
  | number => exact (hnumber.append hguards).append hn
  | boolean => exact hguards.append hboolean

/-! ## Blocks -/

theorem lexes_close : Lexes r"}" [.mark .braceClose] := lexes_of_tokens (by decide)

theorem lexesAs_block {front : String} {us : List Token} (hfront : Lexes front us)
    (h : LexesAs ps ts) : LexesAs (Code.block front ps r"}") (us ++ ts ++ [.mark .braceClose]) :=
  ((lexesAs_piece hfront (.inr (.inl rfl))).append h).append
    (lexesAs_piece lexes_close (.inr (.inr (.inl rfl))))

/-- What is thrown in a block is thrown by it, if nothing is in the line before
it. -/
theorem Reports.block {us : List Token} (h : Reports ts reports) (hus : Reports us []) :
    Reports (us ++ ts ++ [.mark .braceClose]) reports := by
  have hclose : Reports [.mark .braceClose] [] := fun _ => rfl
  simpa using (hus.append h).append hclose

theorem Writes.block (h : Writes bounded ps ss reports) :
    Writes bounded (Code.block r"{" ps r"}") [.block ss] reports := by
  obtain ⟨ts, hlex, hspell, hts⟩ := h
  have hopen : Lexes r"{" [.mark .braceOpen] := lexes_of_tokens (by decide)
  refine ⟨_, lexesAs_block hopen hlex, fun h => .singleton ?_, hts.block fun _ => rfl⟩
  exact Spells.block (hspell h)

theorem Writes.condition {front : String} {e : Expr}
    (hfront : Lexes front (.keyword .condition :: .mark .parenOpen ::
      (ts ++ [.mark .parenClose, .mark .braceOpen]))) (he : SpellsTest ts e)
    (hts : .keyword .throwing ∉ ts) (h : Writes bounded ps ss reports) :
    Writes bounded (Code.block front ps r"}") [.condition e (.block ss) (.block [])]
      reports := by
  obtain ⟨us, hlex, hspell, hus⟩ := h
  refine ⟨_, lexesAs_block hfront hlex, fun h => .singleton ?_,
    hus.block (reports_nil_of_notMem (by simpa using hts))⟩
  simpa using Spells.condition he (Spells.block (hspell h))

/-- A condition and the blocks of its two halves, with the line between them
that closes one and opens the other. -/
theorem Writes.otherwise {front : String} {e : Expr}
    (hfront : Lexes front (.keyword .condition :: .mark .parenOpen ::
      (ts ++ [.mark .parenClose, .mark .braceOpen]))) (he : SpellsTest ts e)
    (hts : .keyword .throwing ∉ ts) (hp : Writes bounded ps rs reports)
    (hq : Writes bounded qs ss reports') :
    Writes bounded
      ([.opening front] ++ ps ++ [.reopening r"} else {"] ++ qs ++ [.closing r"}"])
      [.condition e (.block rs) (.block ss)] (reports ++ reports') := by
  obtain ⟨us, hyes, hrs, hus⟩ := hp
  obtain ⟨vs, hno, hss, hvs⟩ := hq
  have helse : Lexes r"} else {" [.mark .braceClose, .keyword .otherwise, .mark .braceOpen] :=
    lexes_of_tokens (by decide)
  have hlines := ((((lexesAs_piece hfront (.inr (.inl rfl))).append hyes).append
    (lexesAs_piece helse (.inr (.inr (.inr rfl))))).append hno).append
    (lexesAs_piece lexes_close (.inr (.inr (.inl rfl))))
  refine ⟨_, hlines, fun h => .singleton (by simpa using Spells.otherwise he (hrs h) (hss h)), ?_⟩
  have hbehind : Reports [.mark .braceClose, .keyword .otherwise, .mark .braceOpen] [] :=
    fun _ => rfl
  have hfront : Reports (.keyword .condition :: .mark .parenOpen ::
      (ts ++ [.mark .parenClose, .mark .braceOpen])) [] :=
    reports_nil_of_notMem (by simpa using hts)
  simpa [List.append_assoc] using ((hus.append hbehind).append hvs).block hfront

/-! ## Validators -/

theorem writes_checkCode (c : Check) : Writes c.Bounded (checkCode c) [checkTree c]
    (c.absenceReports ++ c.guards.map (Guard.report c.field)) := by
  have hbefore : Lexes "const value = input[" [.keyword .constant, .name "value", .mark .assign,
      .name "input", .mark .bracketOpen] := lexes_of_tokens (by decide)
  have hbehind : Lexes "];" [.mark .bracketClose, .mark .semicolon] := lexes_of_tokens (by decide)
  have hvalue : Writes c.Bounded [.line ("const value = input[" ++ Code.string c.field ++ "];")]
      [.constant "value" (.index (.name "input") (.string c.field))] [] :=
    writes_line ((hbefore.append (lexes_string c.field)).append hbehind)
      (Spells.of_read (by decide) (by decide) fun _ _ => rfl) fun _ => rfl
  have habsence : SpellsTest [.name "value", .mark .strictEqual, .name "undefined", .mark .or,
      .name "value", .mark .strictEqual, .keyword .null] absenceTree :=
    SpellsTest.of_read fun _ _ => rfl
  have hif : Lexes r"if (value === undefined || value === null) {" [.keyword .condition,
      .mark .parenOpen, .name "value", .mark .strictEqual, .name "undefined", .mark .or,
      .name "value", .mark .strictEqual, .keyword .null, .mark .parenClose, .mark .braceOpen] :=
    lexes_of_tokens (by decide)
  have hcondition := Writes.otherwise hif habsence (by decide) (writes_absentLine c)
    (writes_presentLines c)
  exact (hvalue.append hcondition).block

theorem writes_objectCode : Writes bounded objectCode [objectTree] [notAnObject.report] := by
  have hfront : Lexes "if (input === null || typeof input !== " [.keyword .condition,
      .mark .parenOpen, .name "input", .mark .strictEqual, .keyword .null, .mark .or,
      .keyword .typeOf, .name "input", .mark .strictUnequal] :=
    lexes_of_tokens (by decide)
  have hback : Lexes r" || Array.isArray(input)) {" [.mark .or, .name "Array", .mark .point,
      .name "isArray", .mark .parenOpen, .name "input", .mark .parenClose, .mark .parenClose,
      .mark .braceOpen] := lexes_of_tokens (by decide)
  have htest : SpellsTest [.name "input", .mark .strictEqual, .keyword .null, .mark .or,
      .keyword .typeOf, .name "input", .mark .strictUnequal, .string "object", .mark .or,
      .name "Array", .mark .point, .name "isArray", .mark .parenOpen, .name "input",
      .mark .parenClose] noObjectTree := SpellsTest.of_read fun _ _ => rfl
  have hnull : Lexes ("null" ++ ", ") [.keyword .null, .mark .comma] :=
    lexes_of_tokens (by decide)
  have hthrow : Writes bounded [.line (throwFailure "null" notAnObject.message)]
      [failureTree .null notAnObject.message] [notAnObject.report] :=
    writes_line (lexes_throwFailure _ hnull)
      (Spells.of_read (by decide) (by decide) fun _ _ => rfl) fun _ => rfl
  -- The line has a literal in its middle, which is read apart.
  have htext : r#"if (input === null || typeof input !== "object" || Array.isArray(input)) {"# =
      "if (input === null || typeof input !== " ++ Code.string "object" ++
        r" || Array.isArray(input)) {" := by decide
  have hline := (hfront.append (lexes_string "object")).append hback
  unfold objectCode
  rw [htext]
  refine Writes.condition ?_ htest (by decide) hthrow
  exact hline

theorem writes_body (checks : List Check) :
    Writes (∀ c ∈ checks, c.Bounded) (objectCode ++ [.line "const out = {};"] ++
        checks.flatMap checkCode ++ [.line "return out;"])
      ([objectTree] ++ [.constant "out" .object] ++ checks.map checkTree ++
        [.returning (.name "out")])
      (notAnObject.report :: checks.flatMap fun c =>
        c.absenceReports ++ c.guards.map (Guard.report c.field)) := by
  have hout : Writes (∀ c ∈ checks, c.Bounded) [.line "const out = {};"]
      [.constant "out" .object] [] := by
    have hlex : Lexes "const out = {};" [.keyword .constant, .name "out", .mark .assign,
        .mark .braceOpen, .mark .braceClose, .mark .semicolon] := lexes_of_tokens (by decide)
    exact writes_line hlex (Spells.of_read (by decide) (by decide) fun _ _ => rfl) fun _ => rfl
  have hreturn : Writes (∀ c ∈ checks, c.Bounded) [.line "return out;"]
      [.returning (.name "out")] [] := by
    have hlex : Lexes "return out;" [.keyword .returning, .name "out", .mark .semicolon] :=
      lexes_of_tokens (by decide)
    exact writes_line hlex (Spells.of_read (by decide) (by decide) fun _ _ => rfl) fun _ => rfl
  have hchecks := writes_flatMap fun c hc =>
    (writes_checkCode c).mono fun h : ∀ c ∈ checks, c.Bounded => h c hc
  have hbody := ((writes_objectCode.append hout).append hchecks).append hreturn
  rw [List.append_nil] at hbody
  exact hbody

end

theorem lexes_header {schema : String} (hname : Text.IsWord schema) :
    Lexes ("export function " ++ Code.validatorName schema ++ r"(input) {")
      [.keyword .exporting, .keyword .function, .name (Code.validatorName schema),
        .mark .parenOpen, .name "input", .mark .parenClose, .mark .braceOpen] := by
  have hexport : Lexes "export function " [.keyword .exporting, .keyword .function] :=
    lexes_of_tokens (by decide)
  have hparameter : Lexes r"input) {" [.name "input", .mark .parenClose, .mark .braceOpen] :=
    lexes_of_tokens (by decide)
  have htext : "export function " ++ Code.validatorName schema ++ r"(input) {" =
      "export function " ++ (Code.validatorName schema ++ "(") ++ r"input) {" := by
    apply String.ext
    simp
  rw [htext]
  exact (hexport.append (lexes_validatorName hname)).append hparameter

/-- The text of a validator is read as its tree. -/
theorem read_validator {schema : String} {checks : List Check} (hname : Text.IsWord schema)
    (hchecks : ∀ c ∈ checks, c.Bounded) :
    Function.read? (Code.render (validator schema checks)) =
      some (validatorTree schema checks) := by
  obtain ⟨ts, hbody, hspell, -⟩ := writes_body checks
  have htokens : tokens (Code.render (validator schema checks)) =
      .keyword .exporting :: .keyword .function :: .name (Code.validatorName schema) ::
        .mark .parenOpen :: .name "input" :: .mark .parenClose :: .mark .braceOpen ::
        (ts ++ [.mark .braceClose]) := (lexesAs_block (lexes_header hname) hbody 0).tokens_eq
  -- The fuel is eight times the number of tokens, of which the statements need one unit for each.
  rw [Function.read?, htokens, Function.ofTokens?, (hspell hchecks).readAll (by simp; omega)]
  rfl

end Script

end BlockLang
