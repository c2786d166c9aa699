import BlockLang.Proofs.Script.Validator

/-! # The failures that validators throw

A validator in generated code and the one that runs here ask the same questions. The statements
that throw are read off the text of the code, from the first to the last; a run that writes down
each guard it evaluates shows which questions the other one asks, and in which order.
-/

namespace BlockLang

/-! ## Messages of checks -/

namespace Check

def boundMessages (c : Check) : List String :=
  (c.min.map fun min => c.field ++ " must be at least " ++ Code.number min).toList
    ++ (c.max.map fun max => c.field ++ " must be at most " ++ Code.number max).toList

def textMessages (c : Check) : List String :=
  (c.min.map fun min => c.field ++ " is too short (min " ++ Code.number min ++ ")").toList
    ++ (c.max.map fun max => c.field ++ " is too long (max " ++ Code.number max ++ ")").toList
    ++ (c.allowed.map fun values =>
      c.field ++ " must be one of: " ++ String.intercalate ", " values).toList
    ++ (c.pattern.map fun _ => c.field ++ " does not match the required pattern").toList
    ++ (c.format.map fun named => c.field ++ " must be a valid " ++ named.1.spelling).toList

/-- What a check can say, in the order in which it looks for something to
say. -/
def messages (c : Check) : List String :=
  (if c.optional then [] else ["Missing required field: " ++ c.field]) ++
    match c.kind with
    | .text => (c.field ++ " must be a string") :: c.textMessages
    | .integer =>
      (c.field ++ " must be a number") :: (c.field ++ " must be an integer") :: c.boundMessages
    | .number => (c.field ++ " must be a number") :: c.boundMessages
    | .boolean | .passthrough => []

def reports (c : Check) : List Report := c.messages.map (⟨some c.field, ·⟩)

theorem map_message_textGuards (c : Check) :
    c.textGuards.map (Guard.message c.field) =
      (c.field ++ " must be a string") :: c.textMessages := by
  simp only [textGuards, textMessages, List.map_append, Option.toList_map, List.map_map,
    List.append_assoc]
  rfl

theorem map_message_numberGuards (c : Check) :
    c.numberGuards.map (Guard.message c.field) = (c.field ++ " must be a number") ::
      ((if c.kind = .integer then [c.field ++ " must be an integer"] else []) ++
        c.boundMessages) := by
  simp only [numberGuards, boundMessages, List.map_append, Option.toList_map, List.map_map,
    List.append_assoc]
  split <;> rfl

/-- The reports of a check are that of a value that is absent and those of its
guards. -/
theorem reports_eq (c : Check) :
    c.reports = c.absenceReports ++ c.guards.map (Guard.report c.field) := by
  have habsence : c.absenceReports = (if c.optional then [] else
      ["Missing required field: " ++ c.field]).map (⟨some c.field, ·⟩) := by
    unfold absenceReports
    split <;> rfl
  have hguards : c.guards.map (Guard.report c.field) =
      (c.guards.map (Guard.message c.field)).map (⟨some c.field, ·⟩) := by
    rw [List.map_map]
    rfl
  rw [habsence, hguards, ← List.map_append, reports, messages, guards]
  cases hkind : c.kind with
  | text => simp only [map_message_textGuards]
  | integer => simp [map_message_numberGuards, hkind]
  | number => simp [map_message_numberGuards, hkind]
  | boolean => rfl
  | passthrough => rfl

end Check

def requestReports (checks : List Check) : List Report :=
  ⟨none, "Request body must be an object"⟩ :: checks.flatMap Check.reports

/-! ## Runs that write down what they evaluate -/

/-- Guards tried in order on the value of a field up to the first that refuses
it: the reports of all guards that are evaluated, and the one that refuses. -/
def Guard.tryLogged (field : String) (value : Json) : List Guard → List Report × Option Guard
  | [] => ([], none)
  | g :: rest =>
    if g.accepts value then
      let later := tryLogged field value rest
      (g.report field :: later.1, later.2)
    else ([g.report field], some g)

namespace Guard

variable {field : String} {value : Json} {g : Guard}

theorem tryLogged_of_accepts (h : g.accepts value = true) (rest : List Guard) :
    tryLogged field value (g :: rest) =
      (g.report field :: (tryLogged field value rest).1, (tryLogged field value rest).2) := by
  rw [tryLogged, if_pos h]

theorem tryLogged_of_refuses (h : ¬g.accepts value = true) (rest : List Guard) :
    tryLogged field value (g :: rest) = ([g.report field], some g) := by
  rw [tryLogged, if_neg h]

/-- Writing down what is evaluated does not change which guard refuses. -/
theorem tryLogged_snd (gs : List Guard) :
    (tryLogged field value gs).2 = gs.find? (!·.accepts value) := by
  induction gs with
  | nil => rfl
  | cons g rest ih =>
      by_cases hg : g.accepts value = true
      · simp [tryLogged_of_accepts hg, hg, ih]
      · simp [tryLogged_of_refuses hg, hg]

/-- What is evaluated comes from the front of the guards, and stops
somewhere. -/
theorem tryLogged_prefix (gs : List Guard) :
    (tryLogged field value gs).1 <+: gs.map (report field) := by
  induction gs with
  | nil => exact List.prefix_refl _
  | cons g rest ih =>
      by_cases hg : g.accepts value = true
      · rw [tryLogged_of_accepts hg]
        exact (List.prefix_cons_inj _).mpr ih
      · rw [tryLogged_of_refuses hg]
        exact (List.prefix_cons_inj _).mpr List.nil_prefix

theorem tryLogged_of_none {gs : List Guard} (h : (tryLogged field value gs).2 = none) :
    (tryLogged field value gs).1 = gs.map (report field) := by
  induction gs with
  | nil => rfl
  | cons g rest ih =>
      by_cases hg : g.accepts value = true
      · rw [tryLogged_of_accepts hg] at h ⊢
        rw [List.map_cons, ← ih h]
      · rw [tryLogged_of_refuses hg] at h
        cases h

/-- A guard that refuses is the last that is evaluated, so nothing is asked once
the answer is known. -/
theorem tryLogged_of_some {gs : List Guard} (h : (tryLogged field value gs).2 = some g) :
    (tryLogged field value gs).1.getLast? = some (g.report field) := by
  induction gs with
  | nil => cases h
  | cons g' rest ih =>
      by_cases hg : g'.accepts value = true
      · rw [tryLogged_of_accepts hg] at h ⊢
        rw [List.getLast?_cons, ih h]
        rfl
      · rw [tryLogged_of_refuses hg] at h ⊢
        obtain rfl := Option.some.inj h
        rfl

end Guard

namespace Check

def applyLogged (c : Check) (given : Option Json) : List Report × Except Failure Json :=
  match given with
  | none | some .null => (c.absenceReports, c.applyAbsent)
  | some value =>
    let tried := Guard.tryLogged c.field value c.guards
    (c.absenceReports ++ tried.1, match tried.2 with
      | some guard => .error ⟨some c.field, guard.failure, guard.message c.field⟩
      | none => .ok (c.kind.store value))

variable {c : Check} {given : Option Json} {value : Json}

theorem applyLogged_snd (c : Check) (given : Option Json) :
    (c.applyLogged given).2 = c.apply given := by
  unfold applyLogged apply
  split
  · rfl
  · rfl
  next value _ =>
    unfold applyPresent
    cases hfind : c.guards.find? (!·.accepts value) with
    | none => simp only [Guard.tryLogged_snd, hfind]
    | some g => simp only [Guard.tryLogged_snd, hfind]

/-- Whatever is given for a field, what is asked comes from the front of the
reports of its check. -/
theorem applyLogged_prefix (c : Check) (given : Option Json) :
    (c.applyLogged given).1 <+: c.reports := by
  rw [reports_eq]
  unfold applyLogged
  split
  · exact List.prefix_append _ _
  · exact List.prefix_append _ _
  · exact (List.prefix_append_right_inj _).mpr (Guard.tryLogged_prefix _)

theorem applyLogged_of_ne_null (h : value ≠ .null) :
    c.applyLogged (some value) =
      (c.absenceReports ++ (Guard.tryLogged c.field value c.guards).1,
        match (Guard.tryLogged c.field value c.guards).2 with
        | some guard => .error ⟨some c.field, guard.failure, guard.message c.field⟩
        | none => .ok (c.kind.store value)) := by
  cases value with
  | null => exact absurd rfl h
  | _ => rfl

/-- A value that is stored was asked everything. -/
theorem applyLogged_of_ok (hvalue : value ≠ .null) {stored : Json}
    (h : (c.applyLogged (some value)).2 = .ok stored) :
    (c.applyLogged (some value)).1 = c.reports := by
  rw [applyLogged_of_ne_null hvalue] at h ⊢
  rw [reports_eq]
  cases htried : (Guard.tryLogged c.field value c.guards).2 with
  | none => simp only [Guard.tryLogged_of_none htried]
  | some g =>
      simp only [htried] at h
      cases h

/-- A failure is the report of the last question that was asked, and so the
first one that was answered badly. -/
theorem applyLogged_of_error {failure : Failure} (h : (c.applyLogged given).2 = .error failure) :
    (c.applyLogged given).1.getLast? = some failure.report := by
  have habsent : c.applyAbsent = .error failure →
      c.absenceReports.getLast? = some failure.report := by
    intro hfail
    unfold applyAbsent at hfail
    unfold absenceReports
    split at hfail
    · cases hfail
    next hrequired =>
      obtain rfl := Except.error.inj hfail
      rw [if_neg hrequired]
      rfl
  match given with
  | none => exact habsent h
  | some value =>
      by_cases hvalue : value = .null
      · subst hvalue
        exact habsent h
      · rw [applyLogged_of_ne_null hvalue] at h ⊢
        cases htried : (Guard.tryLogged c.field value c.guards).2 with
        | none =>
            simp only [htried] at h
            cases h
        | some g =>
            simp only [htried] at h
            obtain rfl := Except.error.inj h
            rw [List.getLast?_append, Guard.tryLogged_of_some htried]
            rfl

end Check

def validateMembersLogged (members : Json.Members) (record : Json.Members) :
    List Check → List Report × Except Failure Json.Members
  | [] => ([], .ok record)
  | c :: rest =>
    let first := c.applyLogged (members.lookup c.field)
    match first.2 with
    | .error failure => (first.1, .error failure)
    | .ok value =>
      let later := validateMembersLogged members (Json.Members.insert c.field value record) rest
      (first.1 ++ later.1, later.2)

def validateLogged (checks : List Check) (input : Json) :
    List Report × Except Failure Json.Members :=
  match input with
  | .object members =>
    let run := validateMembersLogged members [] checks
    (notAnObject.report :: run.1, run.2)
  | _ => ([notAnObject.report], .error notAnObject)

section

variable {members : Json.Members} {checks : List Check}

theorem validateMembersLogged_of_error {c : Check} {failure : Failure}
    (h : c.apply (members.lookup c.field) = .error failure) (record : Json.Members)
    (rest : List Check) :
    validateMembersLogged members record (c :: rest) =
      ((c.applyLogged (members.lookup c.field)).1, .error failure) := by
  simp only [validateMembersLogged, c.applyLogged_snd, h]

theorem validateMembersLogged_of_ok {c : Check} {value : Json}
    (h : c.apply (members.lookup c.field) = .ok value) (record : Json.Members)
    (rest : List Check) :
    validateMembersLogged members record (c :: rest) =
      ((c.applyLogged (members.lookup c.field)).1 ++ (validateMembersLogged members
          (Json.Members.insert c.field value record) rest).1,
        (validateMembersLogged members (Json.Members.insert c.field value record) rest).2) := by
  simp only [validateMembersLogged, c.applyLogged_snd, h]

theorem validateMembersLogged_snd (record : Json.Members) :
    (validateMembersLogged members record checks).2 = validateMembers members record checks := by
  induction checks generalizing record with
  | nil => rfl
  | cons c rest ih =>
      cases hc : c.apply (members.lookup c.field) with
      | error failure =>
          rw [validateMembersLogged_of_error hc]
          simp only [validateMembers, hc]
      | ok value =>
          rw [validateMembersLogged_of_ok hc]
          simp only [validateMembers, hc, ih]

/-- Nothing else is asked, and nothing in another order, than what the checks
can report. -/
theorem validateMembersLogged_sublist (record : Json.Members) :
    List.Sublist (validateMembersLogged members record checks).1
      (checks.flatMap Check.reports) := by
  induction checks generalizing record with
  | nil => exact List.Sublist.refl _
  | cons c rest ih =>
      have hfirst := (c.applyLogged_prefix (members.lookup c.field)).sublist
      rw [List.flatMap_cons]
      cases hc : c.apply (members.lookup c.field) with
      | error failure =>
          rw [validateMembersLogged_of_error hc]
          exact hfirst.trans (List.sublist_append_left _ _)
      | ok value =>
          rw [validateMembersLogged_of_ok hc]
          exact hfirst.append (ih _)

theorem validateMembersLogged_last {record : Json.Members} {failure : Failure}
    (h : validateMembers members record checks = .error failure) :
    (validateMembersLogged members record checks).1.getLast? = some failure.report := by
  induction checks generalizing record with
  | nil => cases h
  | cons c rest ih =>
      cases hc : c.apply (members.lookup c.field) with
      | error failure' =>
          simp only [validateMembers, hc] at h
          obtain rfl := Except.error.inj h
          rw [validateMembersLogged_of_error hc]
          exact Check.applyLogged_of_error (by rw [c.applyLogged_snd, hc])
      | ok value =>
          simp only [validateMembers, hc] at h
          rw [validateMembersLogged_of_ok hc, List.getLast?_append, ih h]
          rfl

/-- A record that is stored was asked everything, if no field was left out. -/
theorem validateMembersLogged_all {record stored : Json.Members}
    (hgiven : ∀ c ∈ checks, ∃ value, members.lookup c.field = some value ∧ value ≠ .null)
    (h : validateMembers members record checks = .ok stored) :
    (validateMembersLogged members record checks).1 = checks.flatMap Check.reports := by
  induction checks generalizing record with
  | nil => rfl
  | cons c rest ih =>
      obtain ⟨⟨value, hlookup, hvalue⟩, hrest⟩ := List.forall_mem_cons.mp hgiven
      cases hc : c.apply (members.lookup c.field) with
      | error failure =>
          simp only [validateMembers, hc] at h
          cases h
      | ok found =>
          simp only [validateMembers, hc] at h
          have hfirst : (c.applyLogged (members.lookup c.field)).1 = c.reports := by
            rw [hlookup] at hc ⊢
            exact Check.applyLogged_of_ok hvalue (by rw [c.applyLogged_snd, hc])
          rw [validateMembersLogged_of_ok hc, List.flatMap_cons, hfirst, ih hrest h]

end

/-! ## Reading what is thrown -/

namespace Script

open Server

def ThrowsAs (ps : List Code.Piece) (rs : List Report) : Prop :=
  ∃ ts, LexesAs ps ts ∧ Reports ts rs

theorem requestReports_eq (checks : List Check) :
    requestReports checks = notAnObject.report :: checks.flatMap fun c =>
      c.absenceReports ++ c.guards.map (Guard.report c.field) := by
  simp only [← Check.reports_eq]
  rfl

/-- The text of a validator throws what its checks can report, if the name of
the schema is a word. -/
theorem throwsAs_validator {schema : String} (hname : Text.IsWord schema) (checks : List Check) :
    ThrowsAs (validator schema checks) (requestReports checks) := by
  obtain ⟨ts, hlex, -, hreports⟩ := writes_body checks
  rw [requestReports_eq]
  exact ⟨_, lexesAs_block (lexes_header hname) hlex, hreports.block fun _ => rfl⟩

/-- Pieces that throw some reports throw them at any depth, and nothing else. -/
theorem ThrowsAs.thrown_eq {ps : List Code.Piece} {rs : List Report} (h : ThrowsAs ps rs)
    (depth : Nat) :
    thrown (tokens (String.join (Code.renderFrom depth ps))) = rs.map some := by
  obtain ⟨ts, hlex, hts⟩ := h
  rw [(hlex depth).tokens_eq, ← List.append_nil ts, hts, thrown, List.append_nil]

/-- The text of a validator is its first line and then what throws. -/
theorem render_validator (schema : String) (checks : List Check) :
    ∃ body, Code.render (validator schema checks) =
        "export function " ++ Code.validatorName schema ++ "(input) \x7b\n" ++ body ∧
      thrown (tokens body) = (requestReports checks).map some := by
  obtain ⟨ts, hlex, -, hreports⟩ := writes_body checks
  rw [← requestReports_eq] at hreports
  have hnone : Reports [] [] := fun _ => rfl
  have hbody : ThrowsAs _ (requestReports checks) :=
    ⟨_, hlex.append (lexesAs_piece lexes_close (.inr (.inr (.inl rfl)))), hreports.block hnone⟩
  refine ⟨_, ?_, hbody.thrown_eq 1⟩
  have hheader : Code.lineAt 0 ("export function " ++ Code.validatorName schema ++ r"(input) {") =
      "export function " ++ Code.validatorName schema ++ "(input) \x7b\n" := by
    rw [Code.lineAt, if_neg (by simp)]
    apply String.ext
    simp [Code.indentation]
  rw [← hheader, ← String.join_cons]
  rfl

end Script

/-! ## The run of a validator -/

section

variable {checks : List Check} {input : Json}

theorem validateLogged_snd (checks : List Check) (input : Json) :
    (validateLogged checks input).2 = validate checks input := by
  cases input with
  | object members => exact validateMembersLogged_snd []
  | _ => rfl

theorem validateLogged_sublist (checks : List Check) (input : Json) :
    List.Sublist (validateLogged checks input).1 (requestReports checks) := by
  cases input with
  | object members => exact (validateMembersLogged_sublist []).cons_cons notAnObject.report
  | _ => exact (List.nil_sublist _).cons_cons notAnObject.report

theorem validateLogged_last {failure : Failure} (h : validate checks input = .error failure) :
    (validateLogged checks input).1.getLast? = some failure.report := by
  cases input with
  | object members =>
      have hlast : (validateMembersLogged members [] checks).1.getLast? = some failure.report :=
        validateMembersLogged_last h
      simp only [validateLogged, List.getLast?_cons, hlast, Option.getD_some]
  | _ =>
      obtain rfl := Except.error.inj h
      rfl

end

/-- A validator in generated code throws, from its first line to its last,
exactly what its checks can report: that the request is no object, and then
check by check what is asked, in the order in which it is asked here. -/
theorem validator_throws_guards (schema : String) (checks : List Check) :
    (∃ body, Code.render (Server.validator schema checks) =
        "export function " ++ Code.validatorName schema ++ "(input) \x7b\n" ++ body ∧
      Script.thrown (Script.tokens body) = (requestReports checks).map some) ∧
    (Text.IsWord schema →
      Script.thrown (Script.tokens (Code.render (Server.validator schema checks))) =
        (requestReports checks).map some) ∧
    (∀ c ∈ checks, ∀ given, (c.applyLogged given).2 = c.apply given ∧
      (c.applyLogged given).1 <+: c.reports ∧
      ∀ value stored, given = some value → value ≠ .null → c.apply given = .ok stored →
        (c.applyLogged given).1 = c.reports) ∧
    (∀ input, (validateLogged checks input).2 = validate checks input ∧
      List.Sublist (validateLogged checks input).1 (requestReports checks) ∧
      ∀ failure, validate checks input = .error failure →
        (validateLogged checks input).1.getLast? = some failure.report ∧
          failure.report ∈ requestReports checks) ∧
    ∀ members record, validate checks (.object members) = .ok record →
      (∀ c ∈ checks, ∃ value, members.lookup c.field = some value ∧ value ≠ .null) →
      (validateLogged checks (.object members)).1 = requestReports checks := by
  refine ⟨Script.render_validator schema checks, ?_, ?_, ?_, ?_⟩
  · exact fun hname => (Script.throwsAs_validator hname checks).thrown_eq 0
  · intro c _ given
    refine ⟨c.applyLogged_snd given, c.applyLogged_prefix given, ?_⟩
    rintro value stored rfl hvalue hok
    rw [← c.applyLogged_snd] at hok
    exact Check.applyLogged_of_ok hvalue hok
  · intro input
    refine ⟨validateLogged_snd checks input, validateLogged_sublist checks input, ?_⟩
    intro failure hfail
    have hlast := validateLogged_last hfail
    exact ⟨hlast, (validateLogged_sublist checks input).subset (List.mem_of_getLast? hlast)⟩
  · intro members record hok hgiven
    exact congrArg (notAnObject.report :: ·) (validateMembersLogged_all hgiven hok)

/-- What is thrown for a required whole number with a lower bound, from its
absence to the bound. -/
theorem validator_throws_guards_integer :
    Text.IsWord "Item" ∧
    Script.thrown (Script.tokens (Code.render (Server.validator "Item"
      [⟨"n", false, .integer, some (.ofNat 1), none, none, none, none⟩]))) =
    [some ⟨none, "Request body must be an object"⟩, some ⟨some "n", "Missing required field: n"⟩,
      some ⟨some "n", "n must be a number"⟩, some ⟨some "n", "n must be an integer"⟩,
      some ⟨some "n", "n must be at least 1"⟩] := by
  have hname : Text.IsWord "Item" := by
    unfold Text.IsWord
    decide +kernel
  refine ⟨hname, ?_⟩
  rw [(validator_throws_guards "Item" _).2.1 hname]
  decide +kernel

end BlockLang
