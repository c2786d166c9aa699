import BlockLang.Proofs.Decimals
import Mathlib.Data.List.TakeDrop
import Mathlib.Data.List.TakeWhile
import Mathlib.Tactic.IntervalCases

/-! # Plain numerals

The plain text of a double is a sign and a numeral, of digits with at most one point among them and
no needless zero in front. The numeral reads as the double without its sign. Since the exponents of
doubles are bounded, so is the length of the text.
-/

namespace BlockLang.Decimal

open Double

/-! ## Values of digits -/

theorem digitsValue_eq (cs : List Char) : digitsValue cs = Nat.ofDigitChars 10 cs 0 := rfl

theorem digitsValue_toDigits (n : Nat) : digitsValue (Nat.toDigits 10 n) = n := by
  rw [digitsValue_eq, Nat.ofDigitChars_ten_toDigits]

/-- Zeros behind digits multiply the value by a power of ten each, and zeros in
front change nothing. -/
theorem digitsValue_append_zeros (cs : List Char) (n : Nat) :
    digitsValue (cs ++ List.replicate n '0') = digitsValue cs * 10 ^ n := by
  induction n with
  | zero => simp
  | succ n ih =>
    have hlast : digitsValue (cs ++ List.replicate n '0' ++ ['0']) =
        10 * digitsValue (cs ++ List.replicate n '0') := by
      simp [digitsValue, List.foldl_append]
    rw [List.replicate_succ', ← List.append_assoc, hlast, ih, pow_succ]
    ring

theorem digitsValue_zeros_append (n : Nat) (cs : List Char) :
    digitsValue (List.replicate n '0' ++ cs) = digitsValue cs := by
  induction n with
  | zero => rfl
  | succ n ih =>
    rw [List.replicate_succ, List.cons_append]
    exact ih

theorem head_toDigits {n : Nat} (hn : 0 < n) :
    ∃ c rest, Nat.toDigits 10 n = c :: rest ∧ c ≠ '0' := by
  induction n using Nat.strongRecOn with
  | ind n ih =>
    by_cases hsmall : n < 10
    · refine ⟨Nat.digitChar n, [], Nat.toDigits_of_lt_base hsmall, ?_⟩
      interval_cases n <;> decide
    · obtain ⟨c, rest, hdigits, hc⟩ := ih (n / 10) (by omega) (by omega)
      rw [Nat.toDigits_of_base_le (by decide) (by omega), hdigits]
      exact ⟨c, _, rfl, hc⟩

/-! ## Reading digits -/

/-- What digits read as once their value is a double, for a numeral without a
point. -/
theorem readDigits?_whole {negative : Bool} {ws : List Char} {x : Double} (hne : ws ≠ [])
    (hws : ∀ c ∈ ws, c.isDigit = true)
    (hx : toDouble? negative (digitsValue ws) 0 = some x) :
    readDigits? negative ws = some (.finite x) := by
  have htake := List.takeWhile_eq_self_iff.mpr hws
  have hdrop := List.dropWhile_eq_nil_iff.mpr hws
  simp [readDigits?, htake, hdrop, splitFraction, readExponent?, hne, hx]

/-- The same for a numeral with a point: the places behind it count as a
negative exponent. -/
theorem readDigits?_fraction {negative : Bool} {ws fs : List Char} {x : Double} (hne : ws ≠ [])
    (hws : ∀ c ∈ ws, c.isDigit = true) (hfs : ∀ c ∈ fs, c.isDigit = true)
    (hx : toDouble? negative (digitsValue (ws ++ fs)) (-fs.length) = some x) :
    readDigits? negative (ws ++ '.' :: fs) = some (.finite x) := by
  have htake : (ws ++ '.' :: fs).takeWhile Char.isDigit = ws := by
    simp [List.takeWhile_append_of_pos hws]
  have hdrop : (ws ++ '.' :: fs).dropWhile Char.isDigit = '.' :: fs := by
    simp [List.dropWhile_append_of_pos hws]
  have htake' := List.takeWhile_eq_self_iff.mpr hfs
  have hdrop' := List.dropWhile_eq_nil_iff.mpr hfs
  simp [readDigits?, htake, hdrop, splitFraction, htake', hdrop', readExponent?, hne, hx]

/-! ## Plain texts -/

/-- Whether characters are a numeral, without a sign, of a double without its
sign. -/
structure IsNumeral (cs : List Char) (x : Double) : Prop where
  reads : readDigits? false cs = some (.finite ⟨false, x.steps⟩)
  chars : ∀ c ∈ cs, c.isDigit = true ∨ c = '.'
  start : ∃ c rest, cs = c :: rest ∧ c.isDigit = true ∧
    (c = '0' → ∀ d ∈ rest.head?, d.isDigit = false)

section

variable {x : Double} {digits : Nat} {exponent : Int} (hsteps : 0 < x.steps)
  (hx : x.Representable)
  (h : RoundsTo x.steps (Digits.num ⟨digits, exponent⟩) (Digits.den ⟨digits, exponent⟩))

include hsteps hx h

theorem isNumeral_whole (hexp : 0 ≤ exponent) :
    IsNumeral (Nat.toDigits 10 digits ++ List.replicate exponent.toNat '0') x := by
  have hpos : 0 < digits := Digits.digits_pos hsteps h
  obtain ⟨c, rest, hdigits, hc⟩ := head_toDigits hpos
  have hall : ∀ c ∈ Nat.toDigits 10 digits ++ List.replicate exponent.toNat '0',
      c.isDigit = true := by
    intro c hmem
    rcases List.mem_append.mp hmem with hmem | hmem
    · exact Nat.isDigit_of_mem_toDigits (by decide) (by decide) hmem
    · rw [List.eq_of_mem_replicate hmem]
      decide
  constructor
  · apply readDigits?_whole
    · simp [hdigits]
    · exact hall
    · rw [digitsValue_append_zeros, digitsValue_toDigits]
      -- The zeros are part of the digits now.
      have hsame : RoundsTo x.steps (Digits.num ⟨digits * 10 ^ exponent.toNat, 0⟩)
          (Digits.den ⟨digits * 10 ^ exponent.toNat, 0⟩) := by
        have hnum : Digits.num ⟨digits * 10 ^ exponent.toNat, 0⟩ =
            Digits.num ⟨digits, exponent⟩ := by
          simp only [Digits.num, Int.toNat_zero, pow_zero, Nat.mul_one]
          rw [Nat.mul_assoc, Nat.mul_comm one]
        have hden : Digits.den ⟨digits, exponent⟩ = 1 := by
          simp only [Digits.den]
          rw [Int.toNat_of_nonpos (by omega), pow_zero]
        rw [hden] at h
        rw [hnum]
        exact h
      exact Digits.toDouble?_of_roundsTo hsteps hsame false hx.finite hx.whole
  · exact fun c hmem => .inl (hall c hmem)
  · refine ⟨c, rest ++ List.replicate exponent.toNat '0', by rw [hdigits]; rfl, ?_, ?_⟩
    · exact hall c (by simp [hdigits])
    · exact fun hzero => absurd hzero hc

/-- With a point the digits are the same, and the places behind the point are
counted. -/
theorem isNumeral_fraction {ws fs : List Char} (hne : ws ≠ [])
    (hws : ∀ c ∈ ws, c.isDigit = true) (hfs : ∀ c ∈ fs, c.isDigit = true)
    (hvalue : digitsValue (ws ++ fs) = digits) (hplaces : -(fs.length : Int) = exponent)
    (hzero : ∀ rest, ws = '0' :: rest → rest = []) : IsNumeral (ws ++ '.' :: fs) x := by
  constructor
  · apply readDigits?_fraction hne hws hfs
    rw [hvalue, hplaces]
    exact Digits.toDouble?_of_roundsTo hsteps h false hx.finite hx.whole
  · intro c hmem
    rcases List.mem_append.mp hmem with hmem | hmem
    · exact .inl (hws c hmem)
    · rcases List.mem_cons.mp hmem with hpoint | hmem
      · exact .inr hpoint
      · exact .inl (hfs c hmem)
  · obtain ⟨c, rest, rfl⟩ := List.exists_cons_of_ne_nil hne
    refine ⟨c, rest ++ '.' :: fs, rfl, hws c List.mem_cons_self, ?_⟩
    rintro rfl
    rw [hzero rest rfl]
    simp

theorem isNumeral_point_inside {k : Nat}
    (hk : k + 1 + (-exponent).toNat = (Nat.toDigits 10 digits).length) (hexp : exponent < 0) :
    IsNumeral ((Nat.toDigits 10 digits).take (k + 1) ++
      '.' :: (Nat.toDigits 10 digits).drop (k + 1)) x := by
  have hdigit : ∀ c ∈ Nat.toDigits 10 digits, c.isDigit = true :=
    fun c hmem => Nat.isDigit_of_mem_toDigits (by decide) (by decide) hmem
  obtain ⟨c, rest, hdigits, hc⟩ := head_toDigits (Digits.digits_pos hsteps h)
  apply isNumeral_fraction hsteps hx h
  · simp [hdigits]
  · exact fun c hmem => hdigit c (List.mem_of_mem_take hmem)
  · exact fun c hmem => hdigit c (List.mem_of_mem_drop hmem)
  · rw [List.take_append_drop, digitsValue_toDigits]
  · rw [List.length_drop]
    omega
  · intro rest' hrest
    rw [hdigits, List.take_succ_cons] at hrest
    exact absurd (List.cons.inj hrest).1 hc

theorem isNumeral_point_before {zeros : Nat}
    (hzeros : zeros + (Nat.toDigits 10 digits).length = (-exponent).toNat) (hexp : exponent < 0) :
    IsNumeral (['0'] ++ '.' :: (List.replicate zeros '0' ++ Nat.toDigits 10 digits)) x := by
  apply isNumeral_fraction hsteps hx h
  · simp
  · simp
  · intro c hmem
    rcases List.mem_append.mp hmem with hmem | hmem
    · rw [List.eq_of_mem_replicate hmem]
      decide
    · exact Nat.isDigit_of_mem_toDigits (by decide) (by decide) hmem
  · rw [List.singleton_append, ← List.cons_append, ← List.replicate_succ,
      digitsValue_zeros_append, digitsValue_toDigits]
  · rw [List.length_append, List.length_replicate]
    omega
  · simp

/-- Digits with an exponent are written as a numeral of the same double,
wherever the point comes to stand. -/
theorem isNumeral_writePositional :
    IsNumeral (writePositional false (Nat.toDigits 10 digits) exponent).toList x := by
  unfold writePositional
  split
  next hexp => simpa using isNumeral_whole hsteps hx h hexp
  next hexp =>
    simp only
    split
    next hplaces =>
      obtain ⟨k, hk⟩ : ∃ k, (Nat.toDigits 10 digits).length - (-exponent).toNat = k + 1 :=
        ⟨(Nat.toDigits 10 digits).length - (-exponent).toNat - 1, by omega⟩
      rw [hk]
      simpa using isNumeral_point_inside hsteps hx h (show k + 1 + _ = _ by omega) (by omega)
    next hplaces =>
      simpa using isNumeral_point_before hsteps hx h (Nat.sub_add_cancel (by omega)) (by omega)

end

/-- The plain text of a double is its sign and a numeral of it. -/
theorem exists_isNumeral {x : Double} (hx : x.Representable) :
    ∃ cs, (plain.write x).toList = (if x.negative then ['-'] else []) ++ cs ∧ IsNumeral cs x := by
  have hsign : (if x.negative then "-" else "").toList = if x.negative then ['-'] else [] := by
    split <;> rfl
  simp only [Layout.write, plain]
  split
  next hzero =>
    have hsteps : x.steps = 0 := by simpa [isZero] using hzero
    refine ⟨['0'], by simp [String.toList_append, hsign], ?_, by simp, '0', [], rfl, rfl, by simp⟩
    rw [hsteps]
    exact readDigits?_whole (by simp) (by simp) rfl
  next hzero =>
    have hsteps : 0 < x.steps := by
      simp only [isZero, beq_iff_eq] at hzero
      omega
    refine ⟨_, ?_, isNumeral_writePositional hsteps hx (roundsTo_shortest .up hsteps)⟩
    rw [if_pos trivial, String.toList_append, hsign]
    rfl

/-! ## The length of written doubles -/

theorem digitCount_le {n k : Nat} (h : n < 10 ^ k) : digitCount n ≤ k := by
  rcases Nat.eq_zero_or_pos n with rfl | hpos
  · rw [digitCount_zero]
    exact Nat.zero_le k
  · have hpow : 10 ^ (digitCount n - 1) < 10 ^ k :=
      Nat.lt_of_le_of_lt (ten_pow_digitCount_le hpos) h
    have hlt : digitCount n - 1 < k := (Nat.pow_lt_pow_iff_right (by decide)).mp hpow
    omega

theorem length_toDigits {n : Nat} (hn : 0 < n) : (Nat.toDigits 10 n).length = digitCount n := by
  induction n using Nat.strongRecOn with
  | ind n ih =>
    rw [digitCount_of_pos hn]
    rcases Nat.lt_or_ge n 10 with hlt | hge
    · rw [Nat.toDigits_of_lt_base hlt, Nat.div_eq_of_lt hlt, digitCount_zero]
      rfl
    · have hpos : 0 < n / 10 := Nat.div_pos hge (by decide)
      rw [Nat.toDigits_of_base_le (by decide) hge, List.length_append,
        ih (n / 10) (Nat.div_lt_self hn (by decide)) hpos]
      rfl

theorem le_leadingExponent (steps : Nat) : -331 ≤ leadingExponent steps := by
  unfold leadingExponent
  split
  · omega
  · have hone : one < 10 ^ 331 := by decide +kernel
    have hle : (one + steps - 1) / steps - 1 < 10 ^ 331 := by
      have hdiv : (one + steps - 1) / steps ≤ one := by
        rcases Nat.eq_zero_or_pos steps with rfl | hpos
        · simp
        · apply Nat.div_le_of_le_mul
          obtain ⟨k, rfl⟩ := Nat.exists_eq_add_of_lt hpos
          have hk : k * 1 ≤ k * one := Nat.mul_le_mul_left k Double.one_pos
          rw [Nat.zero_add, Nat.add_mul]
          omega
      omega
    have := digitCount_le hle
    omega

theorem le_exponent_search (tie : Tie) (steps : Nat) (exponent : Int) (more : Nat) :
    exponent - more ≤ (search tie steps exponent more).exponent := by
  induction more generalizing exponent with
  | zero => simp [search]
  | succ more ih =>
    simp only [search]
    split
    next =>
      simp only
      omega
    next =>
      have := ih (exponent - 1)
      omega

theorem Digits.le_exponent_strip (d : Digits) : d.exponent ≤ d.strip.exponent := by
  fun_induction Digits.strip d with
  | case1 d _ ih =>
    simp only at ih
    omega
  | case2 d _ => exact Int.le_refl _

/-- The digits that are written do not go far behind the point, for no double
has that many places. -/
theorem le_exponent_shortest (tie : Tie) (steps : Nat) :
    -347 ≤ (shortest tie steps).exponent := by
  have hlead := le_leadingExponent steps
  have hsearch := le_exponent_search tie steps (leadingExponent steps) 16
  have hstrip := (search tie steps (leadingExponent steps) 16).le_exponent_strip
  rw [shortest]
  omega

theorem length_writePositional (digits : List Char) (exponent : Int) :
    (writePositional false digits exponent).length ≤ digits.length + 2 + exponent.natAbs := by
  unfold writePositional
  split
  · simp only [String.length_append, String.length_ofList, List.length_append,
      List.length_replicate]
    simp
    omega
  · simp only
    split
    · simp only [String.length_append, String.length_ofList, List.length_take, List.length_drop]
      have : ".".length = 1 := rfl
      omega
    · simp only [String.length_append, String.length_ofList, List.length_append,
        List.length_replicate]
      have : "0.".length = 2 := rfl
      omega

/-- No double takes long to write. -/
theorem length_write_le {x : Double} (hx : x.Representable) : (plain.write x).length ≤ 1010 := by
  have hsign : (if x.negative then "-" else "").length ≤ 1 := by
    split <;> decide
  have hwhole : (if plain.keepsFraction then "0.0" else "0").length = 1 := rfl
  simp only [Layout.write]
  split
  next =>
    rw [String.length_append]
    omega
  next hzero =>
    have hsteps : 0 < x.steps := by
      simp only [isZero, beq_iff_eq] at hzero
      omega
    have hrounds := roundsTo_shortest .up hsteps
    have hpos := Digits.digits_pos hsteps hrounds
    have hhigh := Digits.magnitude_le hsteps hrounds hx.finite
    have hlow := le_exponent_shortest .up x.steps
    have hlength := length_writePositional (Nat.toDigits 10 (shortest .up x.steps).digits)
      (shortest .up x.steps).exponent
    rw [length_toDigits hpos] at hlength
    change ((if x.negative then "-" else "") ++ writePositional false
      (Nat.toDigits 10 (shortest .up x.steps).digits) (shortest .up x.steps).exponent).length ≤ 1010
    rw [String.length_append]
    omega

end BlockLang.Decimal
