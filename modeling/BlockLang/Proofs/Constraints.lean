import BlockLang.Proofs.StoredRecords
import Mathlib.Algebra.Order.Field.Basic
import Mathlib.Data.Rat.Cast.Order

/-! # Constraints of fields

What the declaration of a field asks of a value, without the order in which it is checked: every
constraint that a value breaks has a kind of failure. The validation reports, of the first field
that breaks a constraint, the one that comes first in a fixed order of kinds. If no field breaks
any, it stores a value for each field and nothing else.
-/

namespace BlockLang

/-! ## Lengths and numbers -/

def Text.utf16 (c : Char) : List UInt16 :=
  if c.toNat < 0x10000 then [UInt16.ofNat c.toNat]
  else
    let offset := c.toNat - 0x10000
    [UInt16.ofNat (0xD800 + offset / 0x400), UInt16.ofNat (0xDC00 + offset % 0x400)]

/-- A text in UTF-16. Lengths are those that the generated code sees, so a
character beyond the first plane counts twice. -/
def Text.codeUnits (s : String) : List UInt16 := s.toList.flatMap utf16

theorem Text.units_eq_length (s : String) : units s = (codeUnits s).length := by
  have hchar : ∀ c, unitsOfChar c = (utf16 c).length := by
    intro c
    unfold unitsOfChar utf16
    split <;> rfl
  rw [units, codeUnits]
  induction s.toList with
  | nil => rfl
  | cons c cs ih => rw [List.foldr_cons, List.flatMap_cons, List.length_append, ih, hchar]

namespace Double

def value (x : Double) : ℚ := x.signedSteps / (one : ℚ)

theorem one_pos_rat : (0 : ℚ) < (one : ℚ) := Nat.cast_pos.mpr one_pos

/-- Doubles are compared as the numbers that they are, so the two zeros are
equal here too. -/
theorem value_lt_iff {x y : Double} : x.value < y.value ↔ x < y := by
  rw [value, value, div_lt_div_iff_of_pos_right one_pos_rat, Int.cast_lt]
  rfl

theorem value_inj_iff {x y : Double} : x.value = y.value ↔ x.signedSteps = y.signedSteps := by
  rw [value, value, div_left_inj' one_pos_rat.ne', Int.cast_inj]

theorem value_eq_intCast_iff {x : Double} {i : ℤ} : x.value = i ↔ x.signedSteps = i * one := by
  rw [value, div_eq_iff one_pos_rat.ne', ← Int.cast_natCast, ← Int.cast_mul, Int.cast_inj]

theorem value_ofNat (n : Nat) : (ofNat n).value = n := by
  have hsteps : (ofNat n).signedSteps = (n * one : Nat) := rfl
  rw [← Int.cast_natCast, value_eq_intCast_iff, hsteps, Int.natCast_mul]

theorem natAbs_signedSteps (x : Double) : x.signedSteps.natAbs = x.steps := by
  unfold signedSteps
  split <;> simp

theorem isWhole_iff {x : Double} : x.isWhole = true ↔ ∃ i : ℤ, x.value = i := by
  have hdvd : (∃ i : ℤ, x.value = i) ↔ (one : ℤ) ∣ x.signedSteps := by
    simp only [value_eq_intCast_iff, dvd_def, mul_comm]
  rw [hdvd, Int.natCast_dvd, natAbs_signedSteps, isWhole, beq_iff_eq, Nat.dvd_iff_mod_eq_zero]

/-- A whole number of steps is the number of ones in it, so nothing is lost in
making an integer of it. -/
theorem value_toInt {x : Double} (h : x.isWhole = true) : x.value = x.toInt := by
  rw [isWhole, beq_iff_eq] at h
  have hsteps : (x.steps : ℤ) = (x.steps / one : Nat) * one := by
    rw [← Int.natCast_mul, Nat.div_mul_cancel (Nat.dvd_of_mod_eq_zero h)]
  rw [value_eq_intCast_iff, signedSteps, toInt]
  split
  · rw [hsteps, Int.neg_mul]
  · rw [hsteps]

theorem natAbs_toInt (x : Double) : x.toInt.natAbs = x.steps / one := by
  unfold toInt
  simp only
  split
  · rw [Int.natAbs_neg, Int.natAbs_natCast]
  · rw [Int.natAbs_natCast]

end Double

/-- The number `q` as a value: a whole number if it is one of at most 53 bits,
and a double otherwise. -/
inductive Json.NumberFor (q : ℚ) : Json → Prop
  | whole {i : ℤ} (heq : q = i) (hsmall : i.natAbs < 2 ^ 53) : NumberFor q (.whole i)
  | double {x : Double} (heq : x.value = q) (hlarge : ∀ i : ℤ, q = i → 2 ^ 53 ≤ i.natAbs) :
      NumberFor q (.double x)

/-- A double is stored in the form that its number has, and in no other. -/
theorem Json.numberFor_value (x : Double) : Json.NumberFor x.value (.ofDouble x) := by
  have hlimit : Nat.pow 2 53 = 2 ^ 53 := rfl
  unfold ofDouble
  split
  next h =>
    rw [Bool.and_eq_true, decide_eq_true_eq, hlimit] at h
    refine .whole (Double.value_toInt h.1) ?_
    rw [Double.natAbs_toInt]
    exact (Nat.div_lt_iff_lt_mul Double.one_pos).mpr h.2
  next h =>
    rw [Bool.and_eq_true, decide_eq_true_eq, hlimit] at h
    refine .double rfl fun i hi => ?_
    have hwhole : x.isWhole = true := Double.isWhole_iff.mpr ⟨i, hi⟩
    have hi' : i = x.toInt := by
      rw [Double.value_toInt hwhole] at hi
      exact (Int.cast_inj.mp hi).symm
    rw [hi', Double.natAbs_toInt, Nat.le_div_iff_mul_le Double.one_pos]
    exact Nat.not_lt.mp fun hlt => h ⟨hwhole, hlt⟩

/-- A number has one form. -/
theorem Json.NumberFor.unique {q : ℚ} {value value' : Json} (h : Json.NumberFor q value)
    (h' : Json.NumberFor q value') : value = value' := by
  cases h with
  | whole heq hsmall =>
      cases h' with
      | whole heq' _ => rw [Int.cast_inj.mp (heq.symm.trans heq')]
      | double _ hlarge => exact absurd hsmall (Nat.not_lt.mpr (hlarge _ heq))
  | @double x heq hlarge =>
      cases h' with
      | whole heq' hsmall => exact absurd hsmall (Nat.not_lt.mpr (hlarge _ heq'))
      | @double y heq' _ =>
          have hsigned := Double.value_inj_iff.mp (heq.trans heq'.symm)
          have hzero : x.signedSteps ≠ 0 := by
            intro hzero
            have hq : q = (0 : ℤ) := by rw [← heq, Double.value_eq_intCast_iff, hzero, zero_mul]
            exact absurd (hlarge 0 hq) (by decide)
          -- The sign of a number that is not zero is told by its steps.
          obtain ⟨negative, steps⟩ := x
          obtain ⟨negative', steps'⟩ := y
          unfold Double.signedSteps at hsigned hzero
          cases negative <;> cases negative' <;> grind

/-! ## Fields -/

/-- What a value is reported for first, of all that it can be reported for. -/
def FailureKind.priority : FailureKind → Nat
  | notAnObject => 0
  | missing => 1
  | notString => 2
  | tooShort => 3
  | tooLong => 4
  | notInEnum => 5
  | patternMismatch => 6
  | invalidFormat => 7
  | notNumber => 8
  | notInteger => 9
  | belowMin => 10
  | aboveMax => 11

namespace Field

def IsNumeric (f : Field) : Prop := f.kind = .integer ∨ f.kind = .number

/-- The constraints of a field that a value breaks, or nothing given breaks. -/
inductive Breaks (f : Field) : Option Json → FailureKind → Prop
  | missing {given : Option Json} (habsent : given = none ∨ given = some .null)
      (hrequired : f.optional = false) : Breaks f given .missing
  | notString {value : Json} (hkind : f.kind = .text) (hnull : value ≠ .null)
      (hform : ∀ s, value ≠ .text s) : Breaks f (some value) .notString
  | tooShort {s : String} {min : Double} (hkind : f.kind = .text)
      (hmin : f.arguments.lookup "min" = some (.number min))
      (hlength : ((Text.codeUnits s).length : ℚ) < min.value) :
      Breaks f (some (.text s)) .tooShort
  | tooLong {s : String} {max : Double} (hkind : f.kind = .text)
      (hmax : f.arguments.lookup "max" = some (.number max))
      (hlength : max.value < ((Text.codeUnits s).length : ℚ)) :
      Breaks f (some (.text s)) .tooLong
  | notInEnum {s : String} {values : List String}
      (hvalues : f.arguments.lookup "enum" = some (.list values)) (hother : s ∉ values) :
      Breaks f (some (.text s)) .notInEnum
  | patternMismatch {s text : String} {pattern : Pattern} (hkind : f.kind = .text)
      (htext : f.text? "pattern" = some text) (hread : Pattern.ofText text = .ok pattern)
      (hmatch : pattern.matchesIn s = false) : Breaks f (some (.text s)) .patternMismatch
  | invalidFormat {s name : String} {format : Format} {pattern : Pattern} (hkind : f.kind = .text)
      (hname : f.formatName? = some name) (hformat : Format.ofName? name = some format)
      (hread : Pattern.ofText format.pattern = .ok pattern)
      (hmatch : pattern.matchesIn s = false) : Breaks f (some (.text s)) .invalidFormat
  | notNumber {value : Json} (hkind : f.IsNumeric) (hnull : value ≠ .null)
      (hform : ∀ x, value.toNumber ≠ .finite x) : Breaks f (some value) .notNumber
  | notInteger {value : Json} {x : Double} (hkind : f.kind = .integer) (hnull : value ≠ .null)
      (hnumber : value.toNumber = .finite x) (hfraction : ∀ i : ℤ, x.value ≠ i) :
      Breaks f (some value) .notInteger
  | belowMin {value : Json} {x min : Double} (hkind : f.IsNumeric) (hnull : value ≠ .null)
      (hnumber : value.toNumber = .finite x)
      (hmin : f.arguments.lookup "min" = some (.number min)) (hless : x.value < min.value) :
      Breaks f (some value) .belowMin
  | aboveMax {value : Json} {x max : Double} (hkind : f.IsNumeric) (hnull : value ≠ .null)
      (hnumber : value.toNumber = .finite x)
      (hmax : f.arguments.lookup "max" = some (.number max)) (hless : max.value < x.value) :
      Breaks f (some value) .aboveMax

/-- Whether a kind of failure is what a field is reported for: the first of
those that the value has. -/
def Fails (f : Field) (given : Option Json) (kind : FailureKind) : Prop :=
  f.Breaks given kind ∧ ∀ other, f.Breaks given other → kind.priority ≤ other.priority

/-- What is stored for a value of a field that breaks no constraint. -/
inductive Stores (f : Field) : Option Json → Json → Prop
  | absent {given : Option Json} (habsent : given = none ∨ given = some .null) :
      Stores f given .null
  | unchanged {value : Json} (hnull : value ≠ .null)
      (hform : f.kind = .text ∨ f.kind = .passthrough ∨ (f.IsNumeric ∧ value.isNumber = true)) :
      Stores f (some value) value
  | boolean {value : Json} (hnull : value ≠ .null) (hkind : f.kind = .boolean) :
      Stores f (some value) (.bool value.toBool)
  | number {value number : Json} {x : Double} (hnull : value ≠ .null) (hkind : f.IsNumeric)
      (hform : value.isNumber = false) (hnumber : value.toNumber = .finite x)
      (hsame : Json.NumberFor x.value number) : Stores f (some value) number

end Field

/-! ## Checks of fields -/

section

variable {schema : String} {f : Field} {c : Check}

theorem Field.readPattern_eq_ok_iff {text : String} {pattern : Pattern} :
    f.readPattern schema text = .ok pattern ↔ Pattern.ofText text = .ok pattern := by
  rw [Field.readPattern]
  cases Pattern.ofText text <;> simp [Except.mapError]

theorem Field.readFormat_eq_ok_iff {name : String} {format : Format} {pattern : Pattern} :
    f.readFormat schema name = .ok (format, pattern) ↔
      Format.ofName? name = some format ∧ Pattern.ofText format.pattern = .ok pattern := by
  unfold Field.readFormat
  split
  next hnone => simp [hnone]
  next found hfound =>
    simp only [Except.bind_eq_ok_iff, Field.readPattern_eq_ok_iff, hfound, Option.some.injEq]
    constructor
    · rintro ⟨read, hread, heq⟩
      cases heq
      exact ⟨rfl, hread⟩
    · rintro ⟨rfl, hread⟩
      exact ⟨pattern, hread, rfl⟩

/-- The pattern and the format of a check are those that the field of a text
names. -/
theorem Field.check_texts (h : f.check schema = .ok c) (hkind : f.kind = .text) :
    (∀ pattern, c.pattern = some pattern ↔
      ∃ text, f.text? "pattern" = some text ∧ Pattern.ofText text = .ok pattern) ∧
    ∀ format pattern, c.format = some (format, pattern) ↔
      ∃ name, f.formatName? = some name ∧ Format.ofName? name = some format ∧
        Pattern.ofText format.pattern = .ok pattern := by
  simp only [Field.check, hkind, if_true, Except.bind_eq_ok_iff] at h
  obtain ⟨pattern?, hpattern, format?, hformat, h⟩ := h
  cases h
  constructor
  · intro pattern
    rw [Option.eq_some_iff_of_mapM hpattern]
    simp only [Field.readPattern_eq_ok_iff]
  · intro format pattern
    rw [Option.eq_some_iff_of_mapM hformat]
    simp only [Field.readFormat_eq_ok_iff]

theorem Field.number?_eq_some_iff {key : String} {x : Double} :
    f.number? key = some x ↔ f.arguments.lookup key = some (.number x) := by
  unfold Field.number?
  split <;> simp_all

theorem Field.enum?_eq_some_iff {values : List String} :
    f.enum? = some values ↔ f.arguments.lookup "enum" = some (.list values) := by
  unfold Field.enum? enumKey
  split <;> simp_all

/-- A field with listed values is a text, whatever type it was given. -/
theorem Field.kind_of_lookup {values : List String}
    (h : f.arguments.lookup "enum" = some (.list values)) : f.kind = .text := by
  rw [Field.kind, Field.enum?_eq_some_iff.mpr h]
  rfl

theorem Check.mem_textGuards_iff {g : Guard} : g ∈ c.textGuards ↔
    g = .isText ∨ (∃ x, c.min = some x ∧ .minLength x = g) ∨
    (∃ x, c.max = some x ∧ .maxLength x = g) ∨
    (∃ values, c.allowed = some values ∧ .oneOf values = g) ∨
    (∃ p, c.pattern = some p ∧ .fits p = g) ∨
    ∃ format p, c.format = some (format, p) ∧ .hasFormat format p = g := by
  simp only [textGuards, List.mem_append, List.mem_singleton, Option.mem_toList,
    Option.map_eq_some_iff, Prod.exists, or_assoc]

theorem Check.mem_numberGuards_iff {g : Guard} : g ∈ c.numberGuards ↔
    g = .isNumber ∨ (c.kind = .integer ∧ g = .isWhole) ∨
    (∃ x, c.min = some x ∧ .atLeast x = g) ∨ ∃ x, c.max = some x ∧ .atMost x = g := by
  have hwhole : g ∈ (if c.kind = .integer then [Guard.isWhole] else []) ↔
      c.kind = .integer ∧ g = .isWhole := by
    split <;> simp_all
  simp only [numberGuards, List.mem_append, List.mem_singleton, hwhole, Option.mem_toList,
    Option.map_eq_some_iff, or_assoc]

namespace Guard

variable {value : Json} {x : Double}

theorem onText_eq_false_iff {test : String → Bool} :
    onText test value = false ↔ ∃ s, value = .text s ∧ test s = false := by
  cases value <;> simp [onText]

theorem onNumber_eq_false_iff {test : Double → Bool} :
    onNumber test value = false ↔ ∃ y, value.toNumber = .finite y ∧ test y = false := by
  cases h : value.toNumber <;> simp [onNumber, h]

theorem isText_refuses_iff : isText.accepts value = false ↔ ∀ s, value ≠ .text s := by
  cases value <;> simp [accepts]

/-- A guard on the length refuses texts alone: what is no text is left to the
guard before it. -/
theorem minLength_refuses_iff : (minLength x).accepts value = false ↔
    ∃ s, value = .text s ∧ ((Text.codeUnits s).length : ℚ) < x.value := by
  simp only [← Text.units_eq_length, ← Double.value_ofNat, Double.value_lt_iff, accepts,
    onText_eq_false_iff, decide_eq_false_iff_not, not_not]

theorem maxLength_refuses_iff : (maxLength x).accepts value = false ↔
    ∃ s, value = .text s ∧ x.value < ((Text.codeUnits s).length : ℚ) := by
  simp only [← Text.units_eq_length, ← Double.value_ofNat, Double.value_lt_iff, accepts,
    onText_eq_false_iff, decide_eq_false_iff_not, not_not]

/-- A list of values refuses the texts that are not in it, as they are
written. -/
theorem oneOf_refuses_iff {values : List String} : (oneOf values).accepts value = false ↔
    ∃ s, value = .text s ∧ s ∉ values := by
  simp [accepts, onText_eq_false_iff]

theorem isNumber_refuses_iff :
    isNumber.accepts value = false ↔ ∀ x, value.toNumber ≠ .finite x := by
  cases h : value.toNumber <;> simp [accepts, h]

/-- A guard on whole numbers refuses numbers with a fraction. -/
theorem isWhole_refuses_iff : isWhole.accepts value = false ↔
    ∃ y, value.toNumber = .finite y ∧ ∀ i : ℤ, y.value ≠ i := by
  rw [accepts, onNumber_eq_false_iff]
  simp only [← Bool.not_eq_true, Double.isWhole_iff, not_exists, ne_eq]

/-- A lower bound refuses the smaller numbers, and not the bound itself. -/
theorem atLeast_refuses_iff : (atLeast x).accepts value = false ↔
    ∃ y, value.toNumber = .finite y ∧ y.value < x.value := by
  simp only [accepts, onNumber_eq_false_iff, decide_eq_false_iff_not, not_not,
    Double.value_lt_iff]

theorem atMost_refuses_iff : (atMost x).accepts value = false ↔
    ∃ y, value.toNumber = .finite y ∧ x.value < y.value := by
  simp only [accepts, onNumber_eq_false_iff, decide_eq_false_iff_not, not_not,
    Double.value_lt_iff]

end Guard

namespace Field

/-- The guards on texts refuse what breaks a constraint, each for its kind of
failure. -/
theorem breaks_iff_text (h : f.check schema = .ok c) (hkind : f.kind = .text) {value : Json}
    (hnull : value ≠ .null) (kind : FailureKind) : f.Breaks (some value) kind ↔
      ∃ g ∈ c.textGuards, g.accepts value = false ∧ g.failure = kind := by
  obtain ⟨-, -, -, hallowed⟩ := check_keeps h
  obtain ⟨hmin, hmax⟩ := check_bounds h
  obtain ⟨hpattern, hformat⟩ := check_texts h hkind
  simp only [Check.mem_textGuards_iff, hallowed, hmin, hmax, hpattern, hformat,
    number?_eq_some_iff, enum?_eq_some_iff]
  -- The rules about numbers cannot be broken here; each other rule is one guard.
  have hnumeric : ¬ f.IsNumeric := by simp [IsNumeric, hkind]
  constructor
  · intro hbreaks
    cases hbreaks with
    | missing habsent _ => simp [hnull] at habsent
    | notString _ _ hform => exact ⟨.isText, .inl rfl, Guard.isText_refuses_iff.mpr hform, rfl⟩
    | tooShort _ hmin hlength =>
        exact ⟨.minLength _, .inr (.inl ⟨_, hmin, rfl⟩),
          Guard.minLength_refuses_iff.mpr ⟨_, rfl, hlength⟩, rfl⟩
    | tooLong _ hmax hlength =>
        exact ⟨.maxLength _, .inr (.inr (.inl ⟨_, hmax, rfl⟩)),
          Guard.maxLength_refuses_iff.mpr ⟨_, rfl, hlength⟩, rfl⟩
    | notInEnum hvalues hother =>
        exact ⟨.oneOf _, .inr (.inr (.inr (.inl ⟨_, hvalues, rfl⟩))),
          Guard.oneOf_refuses_iff.mpr ⟨_, rfl, hother⟩, rfl⟩
    | patternMismatch _ htext hread hmatch =>
        exact ⟨.fits _, .inr (.inr (.inr (.inr (.inl ⟨_, ⟨_, htext, hread⟩, rfl⟩)))), hmatch, rfl⟩
    | invalidFormat _ hname hformat hread hmatch =>
        exact ⟨.hasFormat _ _,
          .inr (.inr (.inr (.inr (.inr ⟨_, _, ⟨_, hname, hformat, hread⟩, rfl⟩)))), hmatch, rfl⟩
    | notNumber hkind' => exact absurd hkind' hnumeric
    | notInteger hkind' => exact absurd (.inl hkind') hnumeric
    | belowMin hkind' => exact absurd hkind' hnumeric
    | aboveMax hkind' => exact absurd hkind' hnumeric
  · rintro ⟨g, hg, hrefused, rfl⟩
    rcases hg with rfl | ⟨x, hx, rfl⟩ | ⟨x, hx, rfl⟩ | ⟨values, hvalues, rfl⟩ |
      ⟨p, ⟨text, htext, hread⟩, rfl⟩ | ⟨format, p, ⟨name, hname, hformat, hread⟩, rfl⟩
    · exact .notString hkind hnull (Guard.isText_refuses_iff.mp hrefused)
    · obtain ⟨s, rfl, hlength⟩ := Guard.minLength_refuses_iff.mp hrefused
      exact .tooShort hkind hx hlength
    · obtain ⟨s, rfl, hlength⟩ := Guard.maxLength_refuses_iff.mp hrefused
      exact .tooLong hkind hx hlength
    · obtain ⟨s, rfl, hother⟩ := Guard.oneOf_refuses_iff.mp hrefused
      exact .notInEnum hvalues hother
    · obtain ⟨s, rfl, hmatch⟩ := Guard.onText_eq_false_iff.mp hrefused
      exact .patternMismatch hkind htext hread hmatch
    · obtain ⟨s, rfl, hmatch⟩ := Guard.onText_eq_false_iff.mp hrefused
      exact .invalidFormat hkind hname hformat hread hmatch

/-- The guards on numbers refuse what breaks a constraint, each for its kind of
failure. -/
theorem breaks_iff_number (h : f.check schema = .ok c) (hkind : f.IsNumeric) {value : Json}
    (hnull : value ≠ .null) (kind : FailureKind) : f.Breaks (some value) kind ↔
      ∃ g ∈ c.numberGuards, g.accepts value = false ∧ g.failure = kind := by
  obtain ⟨-, -, hcheck, -⟩ := check_keeps h
  obtain ⟨hmin, hmax⟩ := check_bounds h
  simp only [Check.mem_numberGuards_iff, hcheck, hmin, hmax, number?_eq_some_iff]
  have htext : f.kind ≠ .text := by rcases hkind with hkind | hkind <;> simp [hkind]
  constructor
  · intro hbreaks
    cases hbreaks with
    | missing habsent _ => simp [hnull] at habsent
    | notNumber _ _ hform => exact ⟨.isNumber, .inl rfl, Guard.isNumber_refuses_iff.mpr hform, rfl⟩
    | notInteger hinteger _ hnumber hfraction =>
        exact ⟨.isWhole, .inr (.inl ⟨hinteger, rfl⟩),
          Guard.isWhole_refuses_iff.mpr ⟨_, hnumber, hfraction⟩, rfl⟩
    | belowMin _ _ hnumber hmin hless =>
        exact ⟨.atLeast _, .inr (.inr (.inl ⟨_, hmin, rfl⟩)),
          Guard.atLeast_refuses_iff.mpr ⟨_, hnumber, hless⟩, rfl⟩
    | aboveMax _ _ hnumber hmax hless =>
        exact ⟨.atMost _, .inr (.inr (.inr ⟨_, hmax, rfl⟩)),
          Guard.atMost_refuses_iff.mpr ⟨_, hnumber, hless⟩, rfl⟩
    | notInEnum hvalues _ => exact absurd (kind_of_lookup hvalues) htext
    | _ hkind' => exact absurd hkind' htext
  · rintro ⟨g, hg, hrefused, rfl⟩
    rcases hg with rfl | ⟨hinteger, rfl⟩ | ⟨x, hx, rfl⟩ | ⟨x, hx, rfl⟩
    · exact .notNumber hkind hnull (Guard.isNumber_refuses_iff.mp hrefused)
    · obtain ⟨y, hnumber, hfraction⟩ := Guard.isWhole_refuses_iff.mp hrefused
      exact .notInteger hinteger hnull hnumber hfraction
    · obtain ⟨y, hnumber, hless⟩ := Guard.atLeast_refuses_iff.mp hrefused
      exact .belowMin hkind hnull hnumber hx hless
    · obtain ⟨y, hnumber, hless⟩ := Guard.atMost_refuses_iff.mp hrefused
      exact .aboveMax hkind hnull hnumber hx hless

/-- A value that is present breaks the constraints whose guards refuse it, for
every kind of field. -/
theorem breaks_iff (h : f.check schema = .ok c) {value : Json} (hnull : value ≠ .null)
    (kind : FailureKind) : f.Breaks (some value) kind ↔
      ∃ g ∈ c.guards, g.accepts value = false ∧ g.failure = kind := by
  obtain ⟨-, -, hcheck, -⟩ := check_keeps h
  have hfree : f.kind ≠ .text → ¬ f.IsNumeric → ¬ f.Breaks (some value) kind := by
    intro htext hnumeric hbreaks
    cases hbreaks with
    | missing habsent _ => simp [hnull] at habsent
    | notInEnum hvalues _ => exact htext (kind_of_lookup hvalues)
    | notInteger hinteger => exact hnumeric (.inl hinteger)
    | notNumber hkind | belowMin hkind | aboveMax hkind => exact hnumeric hkind
    | _ hkind => exact htext hkind
  rw [Check.guards, hcheck]
  cases hkind : f.kind with
  | text => exact breaks_iff_text h hkind hnull kind
  | integer => exact breaks_iff_number h (.inl hkind) hnull kind
  | number => exact breaks_iff_number h (.inr hkind) hnull kind
  | boolean | passthrough => simpa using hfree (by simp [hkind]) (by simp [IsNumeric, hkind])

theorem breaks_absent_iff {given : Option Json} (habsent : given = none ∨ given = some .null)
    (kind : FailureKind) : f.Breaks given kind ↔ f.optional = false ∧ kind = .missing := by
  constructor
  · intro hbreaks
    cases hbreaks <;> simp_all
  · rintro ⟨hrequired, rfl⟩
    exact .missing habsent hrequired

/-- What is stored for a value that breaks no constraint is what the kind of the
field makes of it. -/
theorem stores_iff {value stored : Json} (hnull : value ≠ .null)
    (hnumber : f.IsNumeric → ∃ x, value.toNumber = .finite x) :
    f.Stores (some value) stored ↔ stored = f.kind.store value := by
  have hstore : ∀ x, value.toNumber = .finite x → f.IsNumeric →
      f.kind.store value = if value.isNumber then value else .ofDouble x := by
    rintro x hx (hkind | hkind) <;> simp only [hkind, Kind.store, hx]
  constructor
  · intro hstores
    cases hstores with
    | absent habsent => simp [hnull] at habsent
    | unchanged _ hform =>
        rcases hform with hkind | hkind | ⟨hkind, hform⟩
        · rw [hkind, Kind.store]
        · rw [hkind, Kind.store]
        · obtain ⟨x, hx⟩ := hnumber hkind
          rw [hstore x hx hkind, if_pos hform]
    | boolean _ hkind => rw [hkind, Kind.store]
    | number _ hkind hform hx hsame =>
        rw [hstore _ hx hkind, if_neg (by simp [hform])]
        exact hsame.unique (Json.numberFor_value _)
  · rintro rfl
    by_cases hkind : f.IsNumeric
    · obtain ⟨x, hx⟩ := hnumber hkind
      rw [hstore x hx hkind]
      by_cases hform : value.isNumber = true
      · rw [if_pos hform]
        exact .unchanged hnull (.inr (.inr ⟨hkind, hform⟩))
      · rw [if_neg hform]
        exact .number hnull hkind (by simpa using hform) hx (Json.numberFor_value x)
    · simp only [IsNumeric, not_or] at hkind
      cases hother : f.kind with
      | text => exact .unchanged hnull (.inl hother)
      | passthrough => exact .unchanged hnull (.inr (.inl hother))
      | boolean => exact .boolean hnull hother
      | integer => exact absurd hother hkind.1
      | number => exact absurd hother hkind.2

theorem exists_toNumber_of_free {value : Json} (hnull : value ≠ .null)
    (hfree : ∀ kind, ¬ f.Breaks (some value) kind) (hkind : f.IsNumeric) :
    ∃ x, value.toNumber = .finite x := by
  by_contra hform
  exact hfree _ (.notNumber hkind hnull (not_exists.mp hform))

theorem Stores.unique {given : Option Json} {stored stored' : Json}
    (hfree : ∀ kind, ¬ f.Breaks given kind) (h : f.Stores given stored)
    (h' : f.Stores given stored') : stored = stored' := by
  by_cases habsent : given = none ∨ given = some .null
  · cases h <;> cases h' <;> simp_all
  · obtain ⟨value, rfl⟩ := Option.ne_none_iff_exists'.mp fun hnone => habsent (.inl hnone)
    have hnull : value ≠ .null := fun hnull => habsent (.inr (congrArg some hnull))
    rw [stores_iff hnull (exists_toNumber_of_free hnull hfree)] at h h'
    rw [h, h']

end Field

/-- Whether guards stand in the order of the failures that they report, all
before the given place. -/
def Guard.Ascending (place : Nat) (gs : List Guard) : Prop :=
  (gs.Pairwise fun g g' => g.failure.priority < g'.failure.priority) ∧
    ∀ g ∈ gs, g.failure.priority < place

theorem Guard.Ascending.map {place : Nat} {gs : List Guard} (h : Guard.Ascending place gs)
    {α : Type} {guard : α → Guard} (hguard : ∀ a, (guard a).failure.priority = place)
    (a? : Option α) : Guard.Ascending (place + 1) (gs ++ (a?.map guard).toList) := by
  obtain ⟨hpairwise, hbefore⟩ := h
  cases a? with
  | none =>
      rw [Option.map_none, Option.toList_none, List.append_nil]
      exact ⟨hpairwise, fun g hg => Nat.lt_succ_of_lt (hbefore g hg)⟩
  | some a =>
      rw [Option.map_some, Option.toList_some]
      constructor
      · refine List.pairwise_append.mpr ⟨hpairwise, List.pairwise_singleton _ _, ?_⟩
        intro g hg g' hg'
        rw [List.mem_singleton.mp hg', hguard]
        exact hbefore g hg
      · intro g hg
        rcases List.mem_append.mp hg with hg | hg
        · exact Nat.lt_succ_of_lt (hbefore g hg)
        · rw [List.mem_singleton.mp hg, hguard]
          exact Nat.lt_succ_self place

namespace Check

/-- Guards are tried in the order of the failures that they report. So the first
guard that refuses is the one to report. -/
theorem pairwise_guards (c : Check) :
    c.guards.Pairwise fun g g' => g.failure.priority < g'.failure.priority := by
  have htext : Guard.Ascending 8 c.textGuards := by
    have hfirst : Guard.Ascending 3 [.isText] := by
      simp [Guard.Ascending, Guard.failure, FailureKind.priority]
    exact ((((hfirst.map (fun _ => rfl) c.min).map (fun _ => rfl) c.max).map (fun _ => rfl)
      c.allowed).map (fun _ => rfl) c.pattern).map (fun _ => rfl) c.format
  have hnumber : Guard.Ascending 12 c.numberGuards := by
    have hfirst : Guard.Ascending 10
        ([.isNumber] ++ if c.kind = .integer then [.isWhole] else []) := by
      split <;> simp [Guard.Ascending, Guard.failure, FailureKind.priority]
    exact (hfirst.map (fun _ => rfl) c.min).map (fun _ => rfl) c.max
  unfold guards
  cases c.kind with
  | text => exact htext.1
  | integer | number => exact hnumber.1
  | boolean | passthrough => exact .nil

/-- The guard that reports a value is the one that comes first in the order of
failures. -/
theorem find?_guards_eq_some_iff {value : Json} {g : Guard} :
    c.guards.find? (!·.accepts value) = some g ↔
      g ∈ c.guards ∧ g.accepts value = false ∧
        ∀ g' ∈ c.guards, g'.accepts value = false → g.failure.priority ≤ g'.failure.priority := by
  -- The guards stand in order of priority, so the first refusal is the least.
  have hleast : ∀ {g}, c.guards.find? (!·.accepts value) = some g → g ∈ c.guards ∧
      g.accepts value = false ∧ ∀ g' ∈ c.guards, g'.accepts value = false →
        g'= g ∨ g.failure.priority < g'.failure.priority := by
    intro g hfind
    obtain ⟨hrefused, before, after, hguards, hbefore⟩ := List.find?_eq_some_iff_append.mp hfind
    refine ⟨List.mem_of_find?_eq_some hfind, by simpa using hrefused, fun g' hg' hrefused' => ?_⟩
    have hpairwise := c.pairwise_guards
    rw [hguards, List.pairwise_append] at hpairwise
    rw [hguards, List.mem_append, List.mem_cons] at hg'
    rcases hg' with hg' | rfl | hg'
    · have haccepts := hbefore g' hg'
      simp [hrefused'] at haccepts
    · exact .inl rfl
    · exact .inr ((List.pairwise_cons.mp hpairwise.2.1).1 g' hg')
  constructor
  · intro hfind
    obtain ⟨hg, hrefused, hfirst⟩ := hleast hfind
    refine ⟨hg, hrefused, fun g' hg' hrefused' => ?_⟩
    rcases hfirst g' hg' hrefused' with rfl | hlt
    · exact Nat.le_refl _
    · exact Nat.le_of_lt hlt
  · rintro ⟨hg, hrefused, hfirst⟩
    cases hfind : c.guards.find? (!·.accepts value) with
    | none =>
        have haccepts := List.find?_eq_none.mp hfind g hg
        simp [hrefused] at haccepts
    | some g' =>
        obtain ⟨hg', hrefused', hleast'⟩ := hleast hfind
        rcases hleast' g hg hrefused with rfl | hlt
        · rfl
        · exact absurd hlt (Nat.not_lt.mpr (hfirst g' hg' hrefused'))

/-- A check fails for a field as the constraints of the field say: with the
failure that comes first, and under the name of the field. -/
theorem apply_eq_error_iff (h : f.check schema = .ok c) {given : Option Json}
    {field : Option String} {kind : FailureKind} :
    (∃ message, c.apply given = .error ⟨field, kind, message⟩) ↔
      field = some f.name ∧ f.Fails given kind := by
  obtain ⟨hfield, hoptional, -, -⟩ := Field.check_keeps h
  have habsent : given = none ∨ given = some .null →
      ((∃ message, c.applyAbsent = .error ⟨field, kind, message⟩) ↔
        field = some f.name ∧ f.Fails given kind) := by
    intro hgiven
    simp only [Field.Fails, Field.breaks_absent_iff hgiven, applyAbsent, hoptional, hfield]
    cases f.optional with
    | true => simp
    | false =>
        constructor
        · rintro ⟨message, heq⟩
          cases heq
          exact ⟨rfl, ⟨rfl, rfl⟩, fun other hother => by rw [hother.2]⟩
        · rintro ⟨rfl, ⟨-, rfl⟩, -⟩
          exact ⟨_, rfl⟩
  have hpresent : ∀ value, value ≠ .null → given = some value →
      ((∃ message, c.applyPresent value = .error ⟨field, kind, message⟩) ↔
        field = some f.name ∧ f.Fails given kind) := by
    rintro value hnull rfl
    simp only [Field.Fails, Field.breaks_iff h hnull, applyPresent, hfield]
    constructor
    · rintro ⟨message, heq⟩
      split at heq
      next g hfind =>
        cases heq
        obtain ⟨hg, hrefused, hfirst⟩ := find?_guards_eq_some_iff.mp hfind
        refine ⟨rfl, ⟨g, hg, hrefused, rfl⟩, ?_⟩
        rintro other ⟨g', hg', hrefused', rfl⟩
        exact hfirst g' hg' hrefused'
      next => cases heq
    · rintro ⟨rfl, ⟨g, hg, hrefused, rfl⟩, hfirst⟩
      have hfind := find?_guards_eq_some_iff.mpr
        ⟨hg, hrefused, fun g' hg' hrefused' => hfirst _ ⟨g', hg', hrefused', rfl⟩⟩
      rw [hfind]
      exact ⟨_, rfl⟩
  -- A `null` counts as an absent value.
  cases given with
  | none => exact habsent (.inl rfl)
  | some value =>
      cases value with
      | null => exact habsent (.inr rfl)
      | _ => exact hpresent _ (by simp) rfl

/-- A check gives what is stored for a value that breaks no constraint, and
fails for all others. -/
theorem apply_eq_ok_iff (h : f.check schema = .ok c) {given : Option Json} {value : Json} :
    c.apply given = .ok value ↔ (∀ kind, ¬ f.Breaks given kind) ∧ f.Stores given value := by
  obtain ⟨-, hoptional, hkind, -⟩ := Field.check_keeps h
  have habsent : given = none ∨ given = some .null → (c.applyAbsent = .ok value ↔
      (∀ kind, ¬ f.Breaks given kind) ∧ f.Stores given value) := by
    intro hgiven
    have hstores : f.Stores given value ↔ value = .null := by
      constructor
      · intro hstores
        cases hstores <;> simp_all
      · rintro rfl
        exact .absent hgiven
    simp only [Field.breaks_absent_iff hgiven, hstores, applyAbsent, hoptional]
    cases f.optional <;> simp [eq_comm]
  have hpresent : ∀ j, j ≠ .null → given = some j → (c.applyPresent j = .ok value ↔
      (∀ kind, ¬ f.Breaks given kind) ∧ f.Stores given value) := by
    rintro j hnull rfl
    -- No guard refuses the value exactly when it breaks no rule, whatever the order of the guards.
    have hclean : c.guards.find? (!·.accepts j) = none ↔ ∀ kind, ¬ f.Breaks (some j) kind := by
      simp only [Field.breaks_iff h hnull, List.find?_eq_none]
      grind
    rw [applyPresent]
    cases hfind : c.guards.find? (!·.accepts j) with
    | some g =>
        have hbreaks : ¬ ∀ kind, ¬ f.Breaks (some j) kind := by
          rw [← hclean, hfind]
          simp
        simp [hbreaks]
    | none =>
        have hfree := hclean.mp hfind
        rw [Field.stores_iff hnull (Field.exists_toNumber_of_free hnull hfree), ← hkind,
          Except.ok.injEq, eq_comm]
        exact (and_iff_right hfree).symm
  cases given with
  | none => exact habsent (.inl rfl)
  | some j =>
      cases j with
      | null => exact habsent (.inr rfl)
      | _ => exact hpresent _ (by simp) rfl

end Check

end

end BlockLang
