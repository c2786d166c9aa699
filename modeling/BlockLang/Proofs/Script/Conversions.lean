import BlockLang.Proofs.Decimals
import BlockLang.Proofs.Script.Meaning
import BlockLang.Validation.Number
import Mathlib.Data.List.TakeDrop

/-! # Conversions in scripts and out of them

Scripts have their own rules for what number and what truth value a value stands for. The truth
values are those of the validation; the numbers are, except for some texts and arrays.
-/

namespace BlockLang

def Reading.Alike : Reading → Reading → Prop
  | .finite x, .finite y => x.signedSteps = y.signedSteps
  | .finite _, _ | _, .finite _ => False
  | _, _ => True

theorem Reading.Alike.refl (r : Reading) : r.Alike r := by
  cases r <;> trivial

theorem Reading.alike_notANumber {r : Reading} (h : ∀ x, r ≠ .finite x) : r.Alike .notANumber := by
  cases r with
  | finite x => exact absurd rfl (h x)
  | infinite negative => trivial
  | notANumber => trivial

namespace Double

/-- The steps of one and the first steps beyond the finite doubles are powers of
two. -/
theorem exists_one_eq : ∃ k j, one = 2 ^ k ∧ k = 1074 ∧ overflow = 2 ^ (j + k) ∧ 53 < j :=
  ⟨1074, 1024, by decide +kernel, rfl, by decide +kernel, by decide⟩

/-- A whole number of at most 53 bits is a double: the gap there is no more than
one. -/
theorem gap_dvd_mul_one {n : Nat} (hn : n < 2 ^ 53) : gap (n * one) ∣ n * one := by
  obtain ⟨k, -, hone, -⟩ := exists_one_eq
  have hbits : n * one < 2 ^ (53 + k) := by
    rw [pow_add, ← hone]
    exact Nat.mul_lt_mul_of_pos_right hn Double.one_pos
  have hgap := gap_dvd hbits
  rw [← hone] at hgap
  exact Nat.dvd_mul_left_of_dvd hgap n

theorem roundDiv_pos {num unit : Nat} (hunit : 0 < unit) (hle : unit ≤ num) :
    0 < roundDiv num unit := by
  have hpos : 0 < num / unit := Nat.div_pos hle hunit
  simp only [roundDiv]
  split_ifs <;> omega

/-- A whole number that becomes a double is zero before and after. -/
theorem ofInt?_isZero {i : Int} {x : Double} (h : ofInt? i = some x) : x.isZero = (i == 0) := by
  have hdef : ofInt? i = if roundDiv (i.natAbs * one) (1 * gap (i.natAbs * one / 1)) *
      gap (i.natAbs * one / 1) < overflow then some ⟨decide (i < 0),
        roundDiv (i.natAbs * one) (1 * gap (i.natAbs * one / 1)) * gap (i.natAbs * one / 1)⟩
      else none := rfl
  rw [hdef, Nat.div_one, Nat.one_mul] at h
  split at h
  · cases h
    rcases Nat.eq_zero_or_pos i.natAbs with hzero | hpos
    · obtain rfl : i = 0 := Int.natAbs_eq_zero.mp hzero
      rw [Int.natAbs_zero, Nat.zero_mul]
      rfl
    · have hsteps : 0 < i.natAbs * one := Nat.mul_pos hpos Double.one_pos
      have hround := roundDiv_pos (gap_pos _) (gap_le hsteps)
      have hne : i ≠ 0 := Int.natAbs_pos.mp hpos
      have hprod := Nat.mul_pos hround (gap_pos (i.natAbs * one))
      simp only [isZero, beq_eq_false_iff_ne.mpr hprod.ne', beq_eq_false_iff_ne.mpr hne]
  · cases h

/-- What is a double is rounded to itself, and keeps its sign. -/
theorem round?_exact {steps : Nat} (negative : Bool)
    (h : Representable ⟨negative, steps⟩) : round? negative steps 1 = some ⟨negative, steps⟩ := by
  have hwithin : ∀ gap, 0 < gap → Decimal.within steps 0 (gap * 1) = true :=
    fun gap hgap => Decimal.within_iff.mpr (.inl (by omega))
  rcases Nat.eq_zero_or_pos steps with rfl | hpos
  · exact Decimal.round?_eq_some rfl rfl rfl h.finite
  · obtain ⟨m, hm⟩ := h.whole
    rw [Nat.mul_comm] at hm
    apply Decimal.round?_of_roundsTo hpos Nat.one_pos hm negative h.finite
    refine ⟨fun _ => ?_, fun _ => ?_⟩
    · rw [Nat.mul_one, Nat.sub_self]
      exact hwithin _ (Decimal.gapBelow_pos steps)
    · rw [Nat.mul_one, Nat.sub_self]
      exact hwithin _ (gap_pos steps)

theorem ofInt?_zero : ofInt? 0 = some ⟨false, 0⟩ := by
  rw [ofInt?, Int.natAbs_zero, Nat.zero_mul]
  exact round?_exact false ⟨by decide +kernel, Nat.dvd_zero _⟩

/-- A whole double of at most 53 bits is read back from its whole number, up to
the sign of zero. -/
theorem ofInt?_toInt {x : Double} (hwhole : x.isWhole = true)
    (hbits : x.steps < Nat.pow 2 53 * one) :
    ∃ y, ofInt? x.toInt = some y ∧ y.signedSteps = x.signedSteps := by
  obtain ⟨n, hn⟩ : ∃ n, x.steps = n * one := by
    rw [isWhole, beq_iff_eq] at hwhole
    exact ⟨x.steps / one, (Nat.div_mul_cancel (Nat.dvd_of_mod_eq_zero hwhole)).symm⟩
  have hlt : n < 2 ^ 53 := by
    rw [hn] at hbits
    have hpow : Nat.pow 2 53 = 2 ^ 53 := rfl
    rw [hpow] at hbits
    exact (Nat.mul_lt_mul_right Double.one_pos).mp hbits
  have htoInt : x.toInt = if x.negative then -(n : Int) else n := by
    rw [toInt, hn, Nat.mul_div_cancel _ Double.one_pos]
  have habs : x.toInt.natAbs = n := by
    rw [htoInt]
    split <;> omega
  have hfinite : n * one < overflow := by
    obtain ⟨k, j, hone, -, hoverflow, hj⟩ := exists_one_eq
    rw [hone, hoverflow, pow_add]
    apply Nat.mul_lt_mul_of_pos_right _ (Nat.two_pow_pos k)
    exact Nat.lt_trans hlt (Nat.pow_lt_pow_right (by decide) hj)
  refine ⟨⟨decide (x.toInt < 0), n * one⟩, ?_, ?_⟩
  · rw [ofInt?, habs]
    exact round?_exact _ ⟨hfinite, gap_dvd_mul_one hlt⟩
  · simp only [signedSteps, hn, decide_eq_true_eq, htoInt]
    -- A negative zero loses its sign, which its signed steps do not show.
    rcases Nat.eq_zero_or_pos n with rfl | hpos
    · simp
    · split_ifs <;> omega

end Double

namespace Script

open Decimal

/-! ## Numbers of texts -/

/-- What begins with neither a digit nor a point is no numeral. -/
theorem readDigits?_eq_none {c : Char} {rest : List Char} (hdigit : c.isDigit = false)
    (hpoint : c ≠ '.') (negative : Bool) : readDigits? negative (c :: rest) = none := by
  have hspan : (c :: rest).span Char.isDigit = ([], c :: rest) := by
    simp [List.span_eq_takeWhile_dropWhile, hdigit]
  have hfraction : splitFraction (c :: rest) = ([], c :: rest) := by
    unfold splitFraction
    split
    next heq => exact absurd (List.cons.inj heq).1 hpoint
    next => rfl
  simp only [readDigits?, hspan, hfraction]
  cases readExponent? (c :: rest) <;> rfl

theorem toLower_of_isDigit {c : Char} (h : c.isDigit = true) : c.toLower = c := by
  simp only [Char.isDigit, Bool.and_eq_true, decide_eq_true_eq, ge_iff_le,
    UInt32.le_iff_toNat_le] at h
  unfold Char.toLower
  rw [dif_neg]
  intro hupper
  have hlow : ('A' : Char).val.toNat ≤ c.val.toNat := UInt32.le_iff_toNat_le.mp hupper.1
  exact absurd (Nat.le_trans hlow h.2) (by decide)

/-- The words for what is not finite are no numerals of digits, in capitals or
not. -/
theorem readDigits?_of_word {cs : List Char} {negative : Bool}
    (h : cs.map Char.toLower = "inf".toList ∨ cs.map Char.toLower = "infinity".toList ∨
      cs.map Char.toLower = "nan".toList) : readDigits? negative cs = none := by
  have hfirst : ∃ c rest, cs = c :: rest ∧ (c.toLower = 'i' ∨ c.toLower = 'n') := by
    cases cs with
    | nil => simp at h
    | cons c rest =>
        refine ⟨c, rest, rfl, ?_⟩
        simp only [List.map_cons, String.reduceToList, List.cons.injEq] at h
        rcases h with h | h | h
        · exact .inl h.1
        · exact .inl h.1
        · exact .inr h.1
  obtain ⟨c, rest, rfl, hlower⟩ := hfirst
  apply readDigits?_eq_none
  · rw [Bool.eq_false_iff]
    intro hdigit
    rw [toLower_of_isDigit hdigit] at hlower
    rcases hlower with rfl | rfl <;> cases hdigit
  · rintro rfl
    rcases hlower with h | h <;> cases h

/-- A decimal numeral stands for the same number on both sides. -/
theorem alike_decimalNumber (cs : List Char) :
    (decimalNumber cs).Alike ((read? (String.ofList cs)).getD .notANumber) := by
  simp only [decimalNumber, read?, String.toList_ofList]
  generalize splitSign cs = split
  obtain ⟨negative, rest⟩ := split
  simp only
  -- The words that scripts do not know stand for nothing finite.
  by_cases hinfinite : rest.map Char.toLower = "inf".toList ∨
      rest.map Char.toLower = "infinity".toList
  · rw [if_pos hinfinite, readDigits?_of_word (hinfinite.imp_right .inl)]
    split <;> trivial
  · rw [if_neg hinfinite]
    by_cases hnan : rest.map Char.toLower = "nan".toList
    · rw [if_pos hnan, readDigits?_of_word (.inr (.inr hnan))]
      split <;> trivial
    · rw [if_neg hnan, if_neg]
      · exact Reading.Alike.refl _
      · rintro rfl
        exact hinfinite (.inr (by decide))

/-- Numerals that begin with a base are no numerals outside of scripts, which is
where the two sides differ. -/
theorem read?_of_splitBase? {cs digits : List Char} {base : Nat}
    (h : splitBase? cs = some (base, digits)) : read? (String.ofList cs) = none := by
  obtain ⟨c, rest, rfl, hc⟩ : ∃ c rest, cs = '0' :: c :: rest ∧
      c ∈ ['x', 'X', 'o', 'O', 'b', 'B'] := by
    unfold splitBase? at h
    split at h
    next c rest =>
      exact ⟨c, rest, rfl, by grind⟩
    next => cases h
  have hdigit : c.isDigit = false ∧ c ≠ '.' ∧ c ≠ 'e' ∧ c ≠ 'E' := by
    simp only [List.mem_cons, List.not_mem_nil, or_false] at hc
    rcases hc with rfl | rfl | rfl | rfl | rfl | rfl <;> decide
  have hfraction : splitFraction (c :: rest) = ([], c :: rest) := by
    unfold splitFraction
    split
    next heq => exact absurd (List.cons.inj heq).1 hdigit.2.1
    next => rfl
  have hsign : splitSign ('0' :: c :: rest) = (false, '0' :: c :: rest) := rfl
  have hzero : Char.toLower '0' = '0' := by decide
  simp [read?, hsign, hzero, readDigits?, hfraction, readExponent?, hdigit]

/-- A text without odd blanks around it stands for the same number, unless it is
the number of digits in another base. -/
theorem alike_numberOfText {s : String} (htrim : trim s.toList = (Text.trim s).toList)
    (hbase : splitBase? (trim s.toList) = none ∨ ∀ x, numberOfText s ≠ .finite x) :
    (numberOfText s).Alike (Json.numberOfText s) := by
  have hempty : (Text.trim s).toList.isEmpty = (Text.trim s).isEmpty := by
    rw [Bool.eq_iff_iff, List.isEmpty_iff, String.isEmpty_iff, String.toList_eq_nil_iff]
  cases hsplit : splitBase? (trim s.toList) with
  | none =>
      rw [htrim] at hsplit
      simp only [numberOfText, Json.numberOfText, htrim, hsplit, hempty]
      split
      · exact Reading.Alike.refl _
      · have hdecimal := alike_decimalNumber (Text.trim s).toList
        rwa [String.ofList_toList] at hdecimal
  | some split =>
      have hread := read?_of_splitBase? hsplit
      rw [htrim, String.ofList_toList] at hread
      have hne : (Text.trim s).isEmpty = false := by
        rw [← hempty, ← htrim, List.isEmpty_eq_false_iff]
        intro hnil
        rw [hnil] at hsplit
        cases hsplit
      have hfinite := hbase.resolve_left (by rw [hsplit]; exact Option.some_ne_none _)
      simp only [Json.numberOfText, hne, hread]
      exact Reading.alike_notANumber hfinite

end Script

/-! ## Values -/

namespace Json

open Script

/-- Whether a value stands for the same number in a script: no blank at an end
that only one side drops, no digits in another base, no array with the text of a
number. -/
def ReadsAlike : Json → Prop
  | text s => trim s.toList = (Text.trim s).toList ∧
      (splitBase? (trim s.toList) = none ∨ ∀ x, Script.numberOfText s ≠ .finite x)
  | array items => ∀ x, (Value.ofJson (array items)).toNumber ≠ .finite x
  | _ => True

/-- A value that reads alike stands for the same number in a script and in the
validation, or for none in both. -/
theorem alike_toNumber {v : Json} (h : v.ReadsAlike) :
    (Value.ofJson v).toNumber.Alike v.toNumber := by
  cases v with
  | null => exact Reading.Alike.refl _
  | bool b => exact Reading.Alike.refl _
  | whole i =>
      simp only [Value.ofJson, Value.toNumber, toNumber]
      cases Double.ofInt? i with
      | none => trivial
      | some x => exact Reading.Alike.refl _
  | double x => exact Reading.Alike.refl _
  | text s => exact alike_numberOfText h.1 h.2
  | array items => exact Reading.alike_notANumber h
  | object members =>
      have hobject : Script.numberOfText "[object Object]" = .notANumber := by decide +kernel
      simp only [Value.ofJson, Value.toNumber, Value.text, toNumber, hobject]
      trivial

/-- The truth value that a value stands for is the same on both sides, for every
value. -/
theorem toBoolean_ofJson (v : Json) : (Value.ofJson v).toBoolean = v.toBool := by
  cases v with
  | whole i =>
      simp only [Value.ofJson, toBool]
      cases hx : Double.ofInt? i with
      | none =>
          -- What is too large for a double is not zero.
          have hne : i ≠ 0 := by
            rintro rfl
            rw [Double.ofInt?_zero] at hx
            cases hx
          simpa [Value.toBoolean] using hne
      | some x =>
          simp only [Option.map_some, Option.getD_some, Value.toBoolean, Double.ofInt?_isZero hx]
          rfl
  | _ => simp [Value.ofJson, Value.toBoolean, toBool]

end Json

end BlockLang
