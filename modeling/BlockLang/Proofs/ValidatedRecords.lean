import BlockLang.Proofs.Constraints
import Mathlib.Data.List.Nodup

/-! # Validated records

The validation of a record against the constraints of its schema: which field is reported and for
what, which records pass, and what is stored for them. A record that has passed passes again and
is stored as it is.
-/

namespace BlockLang

/-! ## What is refused and what is stored -/

def Schema.LastNamed (s : Schema) (f : Field) : Prop :=
  ∃ before after, s.fields = before ++ f :: after ∧ f.name ∉ after.map Field.name

/-- What an input is refused for: that it is no object, or the failure of the
first field that has one. -/
inductive Schema.Refuses (s : Schema) : Json → Option String → FailureKind → Prop
  | notAnObject {input : Json} (hform : ∀ members, input ≠ .object members) :
      Refuses s input none .notAnObject
  | field {members : Json.Members} {before after : List Field} {f : Field} {kind : FailureKind}
      (hfields : s.fields = before ++ f :: after)
      (hbefore : ∀ g ∈ before, ∀ other, ¬ g.Breaks (members.lookup g.name) other)
      (hfails : f.Fails (members.lookup f.name) kind) :
      Refuses s (.object members) (some f.name) kind

/-- What is stored for an object that breaks no constraint: a value for each
name of a field, that of its last declaration, and nothing else. -/
inductive Schema.Accepts (s : Schema) : Json → Json.Members → Prop
  | object {members record : Json.Members}
      (hfree : ∀ f ∈ s.fields, ∀ kind, ¬ f.Breaks (members.lookup f.name) kind)
      (hstored : ∀ f, s.LastNamed f → ∃ value, f.Stores (members.lookup f.name) value ∧
        record.lookup f.name = some value)
      (hother : ∀ key, key ∉ s.fields.map Field.name → record.lookup key = none)
      (hordered : record.Ordered) : Accepts s (.object members) record

/-! ## Runs of the validation -/

theorem Schema.forall₂_checks {s : Schema} {checks : List Check} (h : s.checks = .ok checks) :
    List.Forall₂ (fun f c => f.check s.name = .ok c) s.fields checks :=
  List.forall₂_of_mapM h

section

variable {schema : String} {fields : List Field} {checks : List Check}
  {members record result : Json.Members}

theorem names_of_forall₂ (h : List.Forall₂ (fun f c => f.check schema = .ok c) fields checks) :
    checks.map Check.field = fields.map Field.name := by
  induction h with
  | nil => rfl
  | cons hc _ ih => rw [List.map_cons, List.map_cons, (Field.check_keeps hc).1, ih]

/-- The validation fails for the first field that breaks a constraint. -/
theorem validateMembers_eq_error_iff
    (h : List.Forall₂ (fun f c => f.check schema = .ok c) fields checks)
    {field : Option String} {kind : FailureKind} :
    (∃ message, validateMembers members record checks = .error ⟨field, kind, message⟩) ↔
      ∃ before f after, fields = before ++ f :: after ∧
        (∀ g ∈ before, ∀ other, ¬ g.Breaks (members.lookup g.name) other) ∧
        field = some f.name ∧ f.Fails (members.lookup f.name) kind := by
  induction h generalizing record with
  | nil => simp [validateMembers]
  | @cons f c fields checks hc _ ih =>
      have hname := (Field.check_keeps hc).1
      have herror : (∃ message, c.apply (members.lookup f.name) = .error ⟨field, kind, message⟩) ↔
          field = some f.name ∧ f.Fails (members.lookup f.name) kind :=
        Check.apply_eq_error_iff hc
      rw [validateMembers, hname]
      -- The checks stop at the first field that fails, so either this one is it or none before is.
      cases happly : c.apply (members.lookup f.name) with
      | error failure =>
          have hfailed : ¬ ∀ other, ¬ f.Breaks (members.lookup f.name) other := by
            intro hfree
            obtain ⟨-, hfails⟩ := (Check.apply_eq_error_iff hc).mp ⟨failure.message, happly⟩
            exact hfree _ hfails.1
          rw [happly] at herror
          simp only [Except.error.injEq] at herror ⊢
          rw [herror]
          constructor
          · intro hfails
            exact ⟨[], f, fields, rfl, List.forall_mem_nil _, hfails⟩
          · rintro ⟨before, g, after, heq, hbefore, hfails⟩
            cases before with
            | nil =>
                obtain ⟨rfl, -⟩ := List.cons.inj heq
                exact hfails
            | cons first before =>
                obtain ⟨rfl, -⟩ := List.cons.inj heq
                exact absurd (hbefore f List.mem_cons_self) hfailed
      | ok value =>
          have hfree := ((Check.apply_eq_ok_iff hc).mp happly).1
          simp only
          rw [ih]
          constructor
          · rintro ⟨before, g, after, rfl, hbefore, hfails⟩
            exact ⟨f :: before, g, after, rfl, List.forall_mem_cons.mpr ⟨hfree, hbefore⟩, hfails⟩
          · rintro ⟨before, g, after, heq, hbefore, hfield, hfails⟩
            cases before with
            | nil =>
                obtain ⟨rfl, -⟩ := List.cons.inj heq
                exact absurd hfails.1 (hfree kind)
            | cons first before =>
                obtain ⟨rfl, rfl⟩ := List.cons.inj heq
                exact ⟨before, g, after, rfl, (List.forall_mem_cons.mp hbefore).2, hfield, hfails⟩

/-- The validation succeeds for fields that break no constraint, whatever else
the input has. -/
theorem exists_validateMembers
    (h : List.Forall₂ (fun f c => f.check schema = .ok c) fields checks)
    (hfree : ∀ f ∈ fields, ∀ kind, ¬ f.Breaks (members.lookup f.name) kind) :
    ∃ result, validateMembers members record checks = .ok result := by
  cases hresult : validateMembers members record checks with
  | ok result => exact ⟨result, rfl⟩
  | error failure =>
      obtain ⟨before, f, after, rfl, -, -, hfails⟩ :=
        (validateMembers_eq_error_iff h).mp ⟨failure.message, hresult⟩
      exact absurd hfails.1 (hfree f (by simp) failure.kind)

/-- The fields of a run that succeeds break no constraint, and what is stored
for the last field of a name stays. -/
theorem of_validateMembers (h : List.Forall₂ (fun f c => f.check schema = .ok c) fields checks)
    (hresult : validateMembers members record checks = .ok result) :
    (∀ f ∈ fields, ∀ kind, ¬ f.Breaks (members.lookup f.name) kind) ∧
    ∀ before f after, fields = before ++ f :: after → f.name ∉ after.map Field.name →
      ∃ value, f.Stores (members.lookup f.name) value ∧ result.lookup f.name = some value := by
  induction h generalizing record with
  | nil => simp
  | @cons f c fields checks hc hrest ih =>
      have hname := (Field.check_keeps hc).1
      rw [validateMembers, hname] at hresult
      split at hresult
      next => cases hresult
      next value happly =>
        obtain ⟨hfree, hstores⟩ := (Check.apply_eq_ok_iff hc).mp happly
        obtain ⟨hfrees, hlast⟩ := ih hresult
        refine ⟨List.forall_mem_cons.mpr ⟨hfree, hfrees⟩, fun before g after heq hafter => ?_⟩
        cases before with
        | nil =>
            obtain ⟨rfl, rfl⟩ := List.cons.inj heq
            refine ⟨value, hstores, ?_⟩
            rw [lookup_validateMembers_of_not_mem hresult (names_of_forall₂ hrest ▸ hafter),
              Json.Members.lookup_insert, if_pos rfl]
        | cons first before =>
            obtain ⟨rfl, rfl⟩ := List.cons.inj heq
            exact hlast before g after rfl hafter

end

namespace Schema

variable {s : Schema} {checks : List Check} {input : Json} {members record : Json.Members}

theorem exists_lastNamed {name : String} (h : name ∈ s.fields.map Field.name) :
    ∃ f ∈ s.fields, s.LastNamed f ∧ f.name = name := by
  unfold LastNamed
  generalize s.fields = fields at h ⊢
  induction fields with
  | nil => cases h
  | cons g rest ih =>
      by_cases hrest : name ∈ rest.map Field.name
      · obtain ⟨f, hf, ⟨before, after, rfl, hafter⟩, hname⟩ := ih hrest
        exact ⟨f, List.mem_cons_of_mem g hf, ⟨g :: before, after, rfl, hafter⟩, hname⟩
      · obtain rfl : name = g.name := by simpa [hrest] using h
        exact ⟨g, List.mem_cons_self, ⟨[], rest, rfl, hrest⟩, rfl⟩

/-- One record is stored for an input, since the record is ordered and its keys
and values are given. -/
theorem Accepts.unique {record' : Json.Members} (h : s.Accepts input record)
    (h' : s.Accepts input record') : record = record' := by
  obtain ⟨hfree, hstored, hother, hordered⟩ := h
  obtain ⟨-, hstored', hother', hordered'⟩ := h'
  refine hordered.ext hordered' fun key => ?_
  by_cases hkey : key ∈ s.fields.map Field.name
  · obtain ⟨f, hf, hlast, rfl⟩ := exists_lastNamed hkey
    obtain ⟨value, hstores, hlookup⟩ := hstored f hlast
    obtain ⟨value', hstores', hlookup'⟩ := hstored' f hlast
    rw [hlookup, hlookup', hstores.unique (hfree f hf) hstores']
  · rw [hother key hkey, hother' key hkey]

/-- An input fails for the reasons that the schema gives, and for no others. -/
theorem validate_eq_error_iff (hchecks : s.checks = .ok checks) {field : Option String}
    {kind : FailureKind} :
    (∃ message, validate checks input = .error ⟨field, kind, message⟩) ↔
      s.Refuses input field kind := by
  have hfields := s.forall₂_checks hchecks
  constructor
  · rintro ⟨message, herror⟩
    cases input with
    | object members =>
        obtain ⟨before, f, after, heq, hbefore, rfl, hfails⟩ :=
          (validateMembers_eq_error_iff hfields).mp ⟨message, herror⟩
        exact .field heq hbefore hfails
    | _ =>
        cases herror
        exact .notAnObject (by simp)
  · intro hrefuses
    cases hrefuses with
    | notAnObject hform =>
        cases input with
        | object members => exact absurd rfl (hform members)
        | _ => exact ⟨_, rfl⟩
    | field heq hbefore hfails =>
        exact (validateMembers_eq_error_iff hfields).mpr ⟨_, _, _, heq, hbefore, rfl, hfails⟩

/-- An input passes exactly if the schema accepts it, with the record that the
schema says. -/
theorem validate_eq_ok_iff (hchecks : s.checks = .ok checks) :
    validate checks input = .ok record ↔ s.Accepts input record := by
  have hfields := s.forall₂_checks hchecks
  have hsound : ∀ {members record}, validate checks (.object members) = .ok record →
      s.Accepts (.object members) record := by
    intro members record hrecord
    obtain ⟨hkeys, hordered⟩ := keys_validateMembers hrecord
    obtain ⟨hfree, hlast⟩ := of_validateMembers hfields hrecord
    refine .object hfree ?_ ?_ (hordered List.Pairwise.nil)
    · rintro f ⟨before, after, heq, hafter⟩
      exact hlast before f after heq hafter
    · intro key hkey
      rw [← names_of_forall₂ hfields] at hkey
      rw [lookup_validateMembers_of_not_mem hrecord hkey]
      rfl
  constructor
  · intro hrecord
    cases input with
    | object members => exact hsound hrecord
    | _ => cases hrecord
  · intro haccepts
    obtain ⟨hfree, -, -, -⟩ := id haccepts
    -- A run that breaks no rule returns something, and what a run accepts is unique.
    obtain ⟨result, hresult⟩ : ∃ result, validate checks (.object _) = .ok result :=
      exists_validateMembers hfields hfree
    rw [← (hsound hresult).unique haccepts]
    exact hresult

end Schema

/-- The validation does what the constraints of a schema say, for every input.
What is no object is refused as such. An object is refused for the first field,
in their order, that breaks a constraint, with its failure of the first kind,
and what is refused is answered with the status 400. All other objects pass, and
the record that is stored has a value for each field and nothing else; in
particular texts are stored unchanged. -/
theorem validate_exact {s : Schema} {checks : List Check} (hchecks : s.checks = .ok checks)
    (input : Json) :
    (∀ field kind, (∃ message, validate checks input = .error ⟨field, kind, message⟩) ↔
      s.Refuses input field kind) ∧
    Failure.status = 400 ∧
    (∀ record, validate checks input = .ok record ↔ s.Accepts input record) ∧
    ∀ members, input = .object members →
      (∀ f ∈ s.fields, ∀ kind, ¬ f.Breaks (members.lookup f.name) kind) →
      ∃ record, validate checks input = .ok record ∧ ∀ f text, s.LastNamed f → f.kind = .text →
        members.lookup f.name = some (.text text) → record.lookup f.name = some (.text text) := by
  refine ⟨fun _ _ => Schema.validate_eq_error_iff hchecks, rfl,
    fun _ => Schema.validate_eq_ok_iff hchecks, ?_⟩
  rintro members rfl hfree
  obtain ⟨record, hrecord⟩ : ∃ record, validate checks (.object members) = .ok record :=
    exists_validateMembers (s.forall₂_checks hchecks) hfree
  refine ⟨record, hrecord, fun f text hlast hkind hgiven => ?_⟩
  obtain ⟨-, hstored, -, -⟩ := (Schema.validate_eq_ok_iff hchecks).mp hrecord
  obtain ⟨value, hstores, hlookup⟩ := hstored f hlast
  obtain ⟨before, after, heq, -⟩ := hlast
  rw [hgiven] at hstores
  have hunchanged := hstores.unique (hgiven ▸ hfree f (by simp [heq]))
    (.unchanged (by simp) (.inl hkind))
  rw [hlookup, hunchanged]

/-- Of two fields at fault the first is reported. A bound that is no number is
none, and a text stands for a truth value. -/
theorem validate_exact_user :
    let s : Schema := ⟨"User", [⟨"name", "String", false, [("max", .text "2")]⟩,
      ⟨"role", "Int", false, [("enum", .list ["admin", "editor"])]⟩,
      ⟨"active", "Bool", true, []⟩], 1⟩
    let refused : Json := .object [("name", .whole 5), ("role", .text "owner")]
    let accepted : Json := .object [("name", .text "abc"), ("role", .text "admin"),
      ("active", .text ""), ("id", .whole 1)]
    ∃ checks, s.checks = .ok checks ∧ s.Refuses refused (some "name") .notString ∧
      s.Accepts accepted [("active", .bool false), ("name", .text "abc"),
        ("role", .text "admin")] := by
  intro s refused accepted
  let checks : List Check := [⟨"name", false, .text, none, none, none, none, none⟩,
    ⟨"role", false, .text, none, none, some ["admin", "editor"], none, none⟩,
    ⟨"active", true, .boolean, none, none, none, none, none⟩]
  have hchecks : s.checks = .ok checks := by decide +kernel
  obtain ⟨hrefused, -⟩ := validate_exact hchecks refused
  obtain ⟨-, -, haccepted, -⟩ := validate_exact hchecks accepted
  exact ⟨checks, hchecks, (hrefused _ _).mp ⟨_, rfl⟩, (haccepted _).mp rfl⟩

/-! ## Records that are validated again -/

/-- A number that is stored is the number that it was made from. -/
theorem Json.toNumber_ofDouble (x : Double) :
    ∃ y, (Json.ofDouble x).toNumber = .finite y ∧ y.signedSteps = x.signedSteps := by
  unfold Json.ofDouble
  split
  next h =>
    rw [Bool.and_eq_true, decide_eq_true_eq] at h
    obtain ⟨y, hy, hsame⟩ := Double.ofInt?_toInt h.1 h.2
    exact ⟨y, by rw [Json.toNumber, hy]; rfl, hsame⟩
  next => exact ⟨x, rfl, rfl⟩

/-- The guards on numbers see nothing of a value but its number. -/
theorem Guard.accepts_congr {c : Check} {g : Guard} (hg : g ∈ c.numberGuards) {j j' : Json}
    {x y : Double} (hx : j.toNumber = .finite x) (hy : j'.toNumber = .finite y)
    (hsame : y.signedSteps = x.signedSteps) : g.accepts j = g.accepts j' := by
  have hvalue : y.value = x.value := Double.value_inj_iff.mpr hsame
  rw [Bool.eq_iff_iff, ← not_iff_not, Bool.not_eq_true, Bool.not_eq_true]
  rcases Check.mem_numberGuards_iff.mp hg with rfl | ⟨-, rfl⟩ | ⟨z, -, rfl⟩ | ⟨z, -, rfl⟩
  · simp [isNumber_refuses_iff, hx, hy]
  · simp [isWhole_refuses_iff, hx, hy, hvalue]
  · simp [atLeast_refuses_iff, hx, hy, hvalue]
  · simp [atMost_refuses_iff, hx, hy, hvalue]

namespace Check

variable {c : Check}

theorem apply_of_ne_null {j : Json} (h : j ≠ .null) : c.apply (some j) = c.applyPresent j := by
  cases j with
  | null => exact absurd rfl h
  | _ => rfl

theorem applyPresent_of_accepts {j : Json} (h : ∀ g ∈ c.guards, g.accepts j = true) :
    c.applyPresent j = .ok (c.kind.store j) := by
  have hfind : c.guards.find? (!·.accepts j) = none := by
    rw [List.find?_eq_none]
    intro g hg
    simp [h g hg]
  rw [applyPresent, hfind]

/-- A number that a numeric check has stored is accepted and stored as it is. -/
theorem stored_number_again (hkind : c.kind = .integer ∨ c.kind = .number) {j : Json}
    (h : ∀ g ∈ c.guards, g.accepts j = true) : c.kind.store j ≠ .null ∧
    (∀ g ∈ c.guards, g.accepts (c.kind.store j) = true) ∧
      c.kind.store (c.kind.store j) = c.kind.store j := by
  have hguards : c.guards = c.numberGuards := by
    rcases hkind with hkind | hkind <;> rw [guards, hkind]
  have hnumber : Guard.isNumber.accepts j = true := h _ (c.isNumber_mem_guards hkind)
  obtain ⟨x, hx⟩ : ∃ x, j.toNumber = .finite x := by
    by_contra hform
    rw [Guard.isNumber_refuses_iff.mpr (not_exists.mp hform)] at hnumber
    cases hnumber
  have hstore : ∀ {i : Json}, i.isNumber = true → c.kind.store i = i := by
    intro i hi
    rcases hkind with hkind | hkind <;> simp [hkind, Kind.store, hi]
  have hstored := Kind.isNumber_store hkind hnumber
  refine ⟨fun hnull => ?_, ?_, hstore hstored⟩
  · rw [hnull] at hstored
    cases hstored
  by_cases hform : j.isNumber = true
  · rw [hstore hform]
    exact h
  · have hdouble : c.kind.store j = .ofDouble x := by
      rcases hkind with hkind | hkind <;> simp only [hkind, Kind.store, hx, if_neg hform]
    obtain ⟨y, hy, hsame⟩ := Json.toNumber_ofDouble x
    intro g hg
    rw [hdouble, ← Guard.accepts_congr (hguards ▸ hg) hx hy hsame]
    exact h g hg

/-- A value that has passed the guards of a check passes them as it is stored,
which stays. -/
theorem stored_again {j : Json} (hnull : j ≠ .null) (h : ∀ g ∈ c.guards, g.accepts j = true) :
    c.kind.store j ≠ .null ∧ (∀ g ∈ c.guards, g.accepts (c.kind.store j) = true) ∧
      c.kind.store (c.kind.store j) = c.kind.store j := by
  cases hkind : c.kind with
  | text | passthrough => exact ⟨hnull, h, rfl⟩
  | integer => simpa only [hkind] using stored_number_again (.inl hkind) h
  | number => simpa only [hkind] using stored_number_again (.inr hkind) h
  | boolean => exact ⟨by simp [Kind.store], by simp [guards, hkind], rfl⟩

/-- What a check has stored passes the check again and is stored as it is, a
null for an optional field among that. -/
theorem apply_again {given : Option Json} {value : Json} (h : c.apply given = .ok value) :
    c.apply (some value) = .ok value := by
  rcases apply_eq_ok h with ⟨rfl, hoptional⟩ | ⟨j, hnull, hguards, rfl⟩
  · exact if_pos hoptional
  · obtain ⟨hstored, haccepts, hstore⟩ := stored_again hnull hguards
    rw [apply_of_ne_null hstored, applyPresent_of_accepts haccepts, hstore]

end Check

section

variable {members members' record : Json.Members} {checks : List Check}

/-- A run depends on what the checks give for their fields only, and not on how
the input says it. -/
theorem validateMembers_congr
    (h : ∀ c ∈ checks, c.apply (members.lookup c.field) = c.apply (members'.lookup c.field)) :
    validateMembers members record checks = validateMembers members' record checks := by
  induction checks generalizing record with
  | nil => rfl
  | cons c rest ih =>
      obtain ⟨hc, hrest⟩ := List.forall_mem_cons.mp h
      simp only [validateMembers, hc, ih hrest]

end

/-- A record that has passed the validation of a schema passes it again, and is
stored as it is. The names of the fields have to differ: the last field of a
name decides what is stored, and the first one may refuse it. -/
theorem validate_again {s : Schema} (hnames : (s.fields.map Field.name).Nodup)
    {checks : List Check} (hchecks : s.checks = .ok checks) {input : Json}
    {record : Json.Members} (hrecord : validate checks input = .ok record) :
    validate checks (.object record) = .ok record := by
  obtain ⟨members, rfl⟩ : ∃ members, input = .object members := by
    cases input with
    | object members => exact ⟨members, rfl⟩
    | _ => cases hrecord
  rw [← s.fields_of_checks hchecks] at hnames
  have hsame : ∀ c ∈ checks,
      c.apply (record.lookup c.field) = c.apply (members.lookup c.field) := by
    intro c hc
    obtain ⟨c', hc', hfield, value, happly, hlookup⟩ :=
      exists_check_of_validateMembers hrecord (List.mem_map_of_mem hc)
    obtain rfl := List.inj_on_of_nodup_map hnames hc' hc hfield
    rw [hlookup, happly, Check.apply_again happly]
  rw [validate, validateMembers_congr hsame]
  exact hrecord

/-- A negative zero given as a text is stored as the whole number zero, which
passes again. -/
theorem validate_again_negative_zero :
    let s : Schema := ⟨"Item", [⟨"n", "Number", false, [("min", .number (.ofNat 0))]⟩,
      ⟨"on", "Bool", false, []⟩, ⟨"note", "Text", true, []⟩], 1⟩
    let record : Json.Members := [("n", .whole 0), ("note", .null), ("on", .bool true)]
    ∃ checks, s.checks = .ok checks ∧
      validate checks (.object [("n", .text " -0 "), ("on", .text "no")]) = .ok record ∧
      validate checks (.object record) = .ok record := by
  intro s record
  let n : Check := ⟨"n", false, .number, some (.ofNat 0), none, none, none, none⟩
  let checks : List Check := [n, ⟨"on", false, .boolean, none, none, none, none, none⟩,
    ⟨"note", true, .text, none, none, none, none, none⟩]
  have hchecks : s.checks = .ok checks := by decide +kernel
  have hn : n.apply (some (.text " -0 ")) = .ok (.whole 0) := by
    have haccepts : n.guards.all (·.accepts (.text " -0 ")) = true := by decide +kernel
    have hnumber : (Json.text " -0 ").toNumber = .finite ⟨true, 0⟩ := by decide +kernel
    have hsmall : (Double.isWhole ⟨true, 0⟩ && decide (0 < Nat.pow 2 53 * Double.one)) = true := by
      decide +kernel
    have hzero : Double.toInt ⟨true, 0⟩ = 0 := by decide +kernel
    -- The whole number stored for the negative zero is plain zero.
    have hstore : Json.ofDouble ⟨true, 0⟩ = .whole 0 := by rw [Json.ofDouble, if_pos hsmall, hzero]
    rw [Check.apply_of_ne_null (by simp),
      Check.applyPresent_of_accepts (List.all_eq_true.mp haccepts)]
    simp [n, Kind.store, Json.isNumber, hnumber, hstore]
  have hrecord : validate checks (.object [("n", .text " -0 "), ("on", .text "no")]) =
      .ok record := by
    have hfirst : List.lookup n.field [("n", Json.text " -0 "), ("on", .text "no")] =
        some (.text " -0 ") := rfl
    have hrest : validateMembers [("n", .text " -0 "), ("on", .text "no")] [("n", .whole 0)]
        checks.tail = .ok record := rfl
    rw [validate, validateMembers, hfirst, hn]
    exact hrest
  exact ⟨checks, hchecks, hrecord, validate_again (by decide) hchecks hrecord⟩

end BlockLang
