import BlockLang.Decimal.Layout
import Mathlib.Algebra.Order.Ring.Nat
import Mathlib.Tactic.Linarith
import Mathlib.Tactic.Ring

/-! # Written doubles read back

The digits that are written for a double lie in the interval of reals that round to it, so reading
them gives the double again. Seventeen digits always reach the interval, since it is wider than the
grid of the seventeenth digit.
-/

namespace BlockLang

namespace Double

def gap (steps : Nat) : Nat := 2 ^ gapExponent steps

/-- Whether a number of steps is one that a double has: it is finite, and a
whole number of the gaps around it. -/
structure Representable (x : Double) : Prop where
  finite : x.steps < overflow
  whole : gap x.steps ∣ x.steps

theorem one_pos : 0 < one := by decide +kernel

theorem gap_pos (steps : Nat) : 0 < gap steps := Nat.two_pow_pos _

variable {steps : Nat}

/-- Up to 53 bits the gap is one step. Beyond, it leaves 53 bits, of which the
first is set. -/
theorem gap_cases (hsteps : 0 < steps) : gap steps = 1 ∧ steps < 2 ^ 53 ∨
      2 ≤ gap steps ∧ 2 ^ 52 * gap steps ≤ steps ∧ steps < 2 ^ 53 * gap steps := by
  have hne : steps ≠ 0 := by omega
  by_cases hbits : steps.log2 ≤ 52
  · left
    have hgap : gapExponent steps = 0 := Nat.sub_eq_zero_of_le hbits
    exact ⟨by rw [gap, hgap, pow_zero], (Nat.log2_lt hne).mp (by omega)⟩
  · right
    obtain ⟨k, hk⟩ : ∃ k, steps.log2 = 52 + (k + 1) := ⟨steps.log2 - 53, by omega⟩
    have hgap : gap steps = 2 ^ (k + 1) := by
      rw [gap, gapExponent, hk, Nat.add_sub_cancel_left]
    have hlow := Nat.log2_self_le hne
    have hhigh := Nat.lt_log2_self (n := steps)
    rw [hk] at hlow hhigh
    rw [hgap]
    refine ⟨?_, ?_, ?_⟩
    · calc 2 = 2 ^ 1 := rfl
        _ ≤ 2 ^ (k + 1) := Nat.pow_le_pow_right (by decide) (by omega)
    · rwa [← pow_add]
    · calc steps < 2 ^ (52 + (k + 1) + 1) := hhigh
        _ = 2 ^ 53 * 2 ^ (k + 1) := by ring

/-- The gap is settled by bounds on the bits, so it is the same for all numbers
between two powers of two. -/
theorem gap_eq {k : Nat} (hlow : 2 ^ (52 + k) ≤ steps) (hhigh : steps < 2 ^ (53 + k)) :
    gap steps = 2 ^ k := by
  have hne : steps ≠ 0 := by
    have := Nat.two_pow_pos (52 + k)
    omega
  have hlow' := (Nat.le_log2 hne).mpr hlow
  have hhigh' := (Nat.log2_lt hne).mpr hhigh
  rw [gap, gapExponent]
  congr 1
  omega

theorem gap_dvd {k : Nat} (h : steps < 2 ^ (53 + k)) : gap steps ∣ 2 ^ k := by
  rcases Nat.eq_zero_or_pos steps with rfl | hpos
  · exact Nat.one_dvd _
  · have hlog := (Nat.log2_lt hpos.ne').mpr h
    apply Nat.pow_dvd_pow 2
    rw [gapExponent]
    omega

/-- A gap of more than one step is a power of two with a half. -/
theorem exists_gapExponent_eq (h : 1 < gap steps) : ∃ k, gapExponent steps = k + 1 := by
  refine ⟨gapExponent steps - 1, ?_⟩
  rcases Nat.eq_zero_or_pos (gapExponent steps) with hzero | hpos
  · rw [gap, hzero, pow_zero] at h
    omega
  · omega

theorem gap_eq_one (h : steps < 2 ^ 53) : gap steps = 1 := by
  rcases Nat.eq_zero_or_pos steps with rfl | hpos
  · rfl
  · have hlog := (Nat.log2_lt (by omega)).mpr h
    rw [gap, gapExponent, Nat.sub_eq_zero_of_le (by omega), pow_zero]

theorem gap_le (hsteps : 0 < steps) : gap steps ≤ steps := by
  rcases gap_cases hsteps with ⟨hgap, -⟩ | ⟨-, hlow, -⟩
  · omega
  · omega

/-! ## Quotients -/

theorem div_mod_of_lt {m r unit : Nat} (hr : r < unit) :
    (m * unit + r) / unit = m ∧ (m * unit + r) % unit = r := by
  constructor
  · rw [Nat.mul_comm, Nat.mul_add_div (by omega), Nat.div_eq_of_lt hr, Nat.add_zero]
  · rw [Nat.mul_comm, Nat.mul_add_mod, Nat.mod_eq_of_lt hr]

/-- A quotient a little above a whole number is rounded down to it; half of the
way, if the whole number is even. -/
theorem roundDiv_above {m r unit : Nat} (hunit : 0 < unit)
    (h : 2 * r < unit ∨ 2 * r = unit ∧ m % 2 = 0) : roundDiv (m * unit + r) unit = m := by
  obtain ⟨hdiv, hmod⟩ := div_mod_of_lt (m := m) (show r < unit by omega)
  simp only [roundDiv, hdiv, hmod]
  split_ifs <;> omega

theorem roundDiv_below {m r unit : Nat} (hm : 0 < m) (hr : 0 < r)
    (h : 2 * r < unit ∨ 2 * r = unit ∧ m % 2 = 0) : roundDiv (m * unit - r) unit = m := by
  obtain ⟨m, rfl⟩ : ∃ n, m = n + 1 := ⟨m - 1, by omega⟩
  have hsplit : (m + 1) * unit - r = m * unit + (unit - r) := by
    rw [Nat.add_mul, Nat.one_mul]
    omega
  obtain ⟨hdiv, hmod⟩ := div_mod_of_lt (m := m) (show unit - r < unit by omega)
  rw [hsplit]
  simp only [roundDiv, hdiv, hmod]
  split_ifs <;> omega

end Double

namespace Decimal

open Double

/-- Whether `num / den` steps round to `steps`: they lie no further off than
half the gap on their side of it. -/
structure RoundsTo (steps num den : Nat) : Prop where
  below : num ≤ steps * den → within steps (2 * (steps * den - num)) (gapBelow steps * den) = true
  above : steps * den ≤ num → within steps (2 * (num - steps * den)) (gap steps * den) = true

variable {steps : Nat} {tie : Tie}

theorem within_iff {twice limit : Nat} : within steps twice limit = true ↔
      twice < limit ∨ twice = limit ∧ steps / gap steps % 2 = 0 := by
  unfold within
  change (if steps / gap steps % 2 = 0 then _ else _) = true ↔ _
  split_ifs with h
  · simp only [decide_eq_true_eq, h, and_true]
    omega
  · simp only [decide_eq_true_eq, h, and_false, or_false]

/-- The gap below a double is the one above it, or half of it below a power of
two. -/
theorem gapBelow_cases (steps : Nat) :
    gapBelow steps = gap steps ∧ (gap steps = 1 ∨ steps ≠ 2 ^ steps.log2) ∨
      2 * gapBelow steps = gap steps ∧ steps = 2 ^ steps.log2 ∧ 2 ≤ gap steps := by
  have hdef : gapBelow steps =
      if 1 < gap steps ∧ steps = 2 ^ steps.log2 then gap steps / 2 else gap steps := rfl
  have hpos := gap_pos steps
  rw [hdef]
  split_ifs with h
  · right
    refine ⟨?_, h.2, h.1⟩
    obtain ⟨k, hk⟩ := exists_gapExponent_eq h.1
    rw [gap, hk, pow_succ, Nat.mul_div_cancel _ (by decide), Nat.mul_comm]
  · left
    refine ⟨rfl, ?_⟩
    by_contra hcon
    simp only [not_or, not_not] at hcon
    exact h ⟨by omega, hcon.2⟩

theorem exists_gapBelow_eq (hbelow : 2 * gapBelow steps = gap steps)
    (hpower : steps = 2 ^ steps.log2) (htwo : 2 ≤ gap steps) :
    ∃ k, gapBelow steps = 2 ^ k ∧ steps = 2 ^ (53 + k) := by
  obtain ⟨k, hk⟩ := exists_gapExponent_eq htwo
  refine ⟨k, ?_, ?_⟩
  · rw [gap, hk, pow_succ] at hbelow
    omega
  · have hlog : steps.log2 = 53 + k := by
      unfold gapExponent at hk
      omega
    rwa [hlog] at hpower

/-- What a quotient is rounded to, once the gap at its place is known. -/
theorem round?_eq_some {negative : Bool} {num den unit m : Nat} (hunit : gap (num / den) = unit)
    (hround : roundDiv num (den * unit) = m)
    (hsteps : m * unit = steps) (hfinite : steps < overflow) :
    round? negative num den = some ⟨negative, steps⟩ := by
  have hdef : round? negative num den =
      if roundDiv num (den * gap (num / den)) * gap (num / den) < overflow then
        some ⟨negative, roundDiv num (den * gap (num / den)) * gap (num / den)⟩ else none := rfl
  rw [hdef, hunit, hround, hsteps, if_pos hfinite]

section

variable {steps num den m : Nat} (hsteps : 0 < steps) (hden : 0 < den)
  (hm : steps = m * gap steps)

include hsteps hden hm

/-- Above a double, up to the midpoint, the gap is that of the double. -/
theorem gap_above (hle : steps * den ≤ num) (hnear : 2 * (num - steps * den) ≤ gap steps * den) :
    gap (num / den) = gap steps := by
  have hpos : 0 < gap steps * den := Nat.mul_pos (gap_pos steps) hden
  have hlow : steps ≤ num / den := (Nat.le_div_iff_mul_le hden).mpr hle
  have hhigh : num / den < steps + gap steps := by
    rw [Nat.div_lt_iff_lt_mul hden, Nat.add_mul]
    omega
  rcases gap_cases hsteps with ⟨hone, -⟩ | ⟨-, hfrom, hto⟩
  · obtain rfl : num / den = steps := by omega
    rfl
  · have hlast : steps + gap steps ≤ 2 ^ 53 * gap steps := by
      have hlt : m < 2 ^ 53 := Nat.lt_of_mul_lt_mul_right (hm ▸ hto : m * gap steps < _)
      calc steps + gap steps = (m + 1) * gap steps := by rw [Nat.add_mul, Nat.one_mul, ← hm]
        _ ≤ 2 ^ 53 * gap steps := Nat.mul_le_mul_right _ hlt
    apply gap_eq
    · rw [pow_add]
      exact Nat.le_trans hfrom hlow
    · rw [pow_add]
      exact Nat.lt_of_lt_of_le hhigh hlast

/-- A double that is not the first between two powers of two has another one
below it there, at the same distance. -/
theorem gap_below_inside (hlt : num < steps * den)
    (hnear : 2 * (steps * den - num) ≤ gap steps * den)
    (hfirst : gap steps = 1 ∨ steps ≠ 2 ^ steps.log2) : gap (num / den) = gap steps := by
  have hhigh : num / den < steps := (Nat.div_lt_iff_lt_mul hden).mpr hlt
  rcases gap_cases hsteps with ⟨hone, hbits⟩ | ⟨htwo, hfrom, hto⟩
  · rw [hone]
    exact gap_eq_one (by omega)
  · -- Off a power of two the number below lies in the same binade, so the gap is the same.
    have hne : steps ≠ 2 ^ 52 * gap steps := by
      intro heq
      rcases hfirst with hone | hpower
      · omega
      · apply hpower
        have hlog : steps.log2 = 52 + gapExponent steps := by
          nth_rewrite 1 [heq]
          rw [gap, ← pow_add, Nat.log2_two_pow]
        rw [hlog, pow_add]
        exact heq
    have hm52 : 2 ^ 52 < m := by
      by_contra hle
      have hle' := Nat.mul_le_mul_right (gap steps) (Nat.not_lt.mp hle)
      omega
    have hlow : (steps - gap steps) * den ≤ num := by
      rw [Nat.sub_mul]
      omega
    have hfrom' : 2 ^ 52 * gap steps ≤ steps - gap steps := by
      have := Nat.mul_le_mul_right (gap steps) (show 2 ^ 52 + 1 ≤ m from hm52)
      rw [Nat.add_mul, Nat.one_mul, ← hm] at this
      omega
    apply gap_eq
    · rw [pow_add]
      exact Nat.le_trans hfrom' ((Nat.le_div_iff_mul_le hden).mpr hlow)
    · rw [pow_add]
      exact Nat.lt_trans hhigh hto

omit hsteps hm in
theorem gap_below_power {k : Nat} (hlt : num < steps * den)
    (hnear : 2 * (steps * den - num) ≤ 2 ^ k * den) (hpower : steps = 2 ^ (53 + k)) :
    gap (num / den) = 2 ^ k := by
  have hlow : (steps - 2 ^ k) * den ≤ num := by
    rw [Nat.sub_mul]
    omega
  apply gap_eq
  · have hhalf : 2 ^ (52 + k) ≤ steps - 2 ^ k := by
      have hdouble : (2 : Nat) ^ (53 + k) = 2 ^ (52 + k) + 2 ^ (52 + k) := by ring
      have hlater : (2 : Nat) ^ k ≤ 2 ^ (52 + k) := Nat.pow_le_pow_right (by decide) (by omega)
      omega
    exact Nat.le_trans hhalf ((Nat.le_div_iff_mul_le hden).mpr hlow)
  · rw [← hpower]
    exact (Nat.div_lt_iff_lt_mul hden).mpr hlt

/-- Below a double, down to the midpoint, the gap is the one below the
double. -/
theorem gap_below (hlt : num < steps * den)
    (hnear : 2 * (steps * den - num) ≤ gapBelow steps * den) :
    gap (num / den) = gapBelow steps := by
  rcases gapBelow_cases steps with ⟨hbelow, hfirst⟩ | ⟨hbelow, hpower, htwo⟩
  · rw [hbelow] at hnear ⊢
    exact gap_below_inside hsteps hden hm hlt hnear hfirst
  · obtain ⟨k, hk, hk'⟩ := exists_gapBelow_eq hbelow hpower htwo
    rw [hk] at hnear ⊢
    exact gap_below_power hden hlt hnear hk'

/-- What lies near enough to a double is rounded to it. -/
theorem round?_of_roundsTo (negative : Bool) (hfinite : steps < overflow)
    (h : RoundsTo steps num den) : round? negative num den = some ⟨negative, steps⟩ := by
  have hquot : steps / gap steps = m := by
    nth_rewrite 1 [hm]
    exact Nat.mul_div_cancel _ (gap_pos steps)
  -- Below the double the spacing may be half of that above it, so the sides are taken apart.
  by_cases hle : steps * den ≤ num
  · have hnear := within_iff.mp (h.above hle)
    rw [hquot] at hnear
    have hnum : num = m * (den * gap steps) + (num - steps * den) := by
      have : m * (den * gap steps) = steps * den := by
        nth_rewrite 2 [hm]
        ring
      omega
    have hgap := gap_above hsteps hden hm hle (by omega)
    refine round?_eq_some hgap ?_ hm.symm hfinite
    rw [hnum]
    apply roundDiv_above (Nat.mul_pos hden (gap_pos steps))
    rwa [Nat.mul_comm den]
  · have hlt : num < steps * den := Nat.not_le.mp hle
    have hnear := within_iff.mp (h.below (Nat.le_of_lt hlt))
    rw [hquot] at hnear
    have hgap := gap_below hsteps hden hm hlt (by omega)
    obtain ⟨n, hn, heven⟩ : ∃ n, steps = n * gapBelow steps ∧ (m % 2 = 0 → n % 2 = 0) := by
      rcases gapBelow_cases steps with ⟨hbelow, -⟩ | ⟨hbelow, -, -⟩
      · exact ⟨m, by rw [hbelow]; exact hm, id⟩
      · refine ⟨2 * m, ?_, fun _ => by omega⟩
        rw [Nat.mul_assoc, Nat.mul_left_comm, hbelow]
        exact hm
    have hunit : n * (den * gapBelow steps) = steps * den := by
      nth_rewrite 2 [hn]
      ring
    have hnum : num = n * (den * gapBelow steps) - (steps * den - num) := by omega
    refine round?_eq_some hgap ?_ hn.symm hfinite
    rw [hnum]
    apply roundDiv_below
    · rcases Nat.eq_zero_or_pos n with rfl | hpos
      · omega
      · exact hpos
    · omega
    · rw [Nat.mul_comm den]
      exact hnear.imp_right fun h => ⟨h.1, heven h.2⟩

end

/-! ## Digits that round to a double -/

/-- Only the quotient counts, and not how it is given. -/
theorem RoundsTo.scale {num den k : Nat} (hk : 0 < k) :
    RoundsTo steps (k * num) (k * den) ↔ RoundsTo steps num den := by
  have hwithin : ∀ a b, within steps (2 * (k * a)) (k * b) = within steps (2 * a) b := by
    intro a b
    rw [Bool.eq_iff_iff, within_iff, within_iff, Nat.mul_left_comm 2, Nat.mul_lt_mul_left hk,
      Nat.mul_right_inj (by omega)]
  have hmul : ∀ a, a * (k * den) = k * (a * den) := fun a => Nat.mul_left_comm a k den
  constructor
  · rintro ⟨hbelow, habove⟩
    simp only [hmul, ← Nat.mul_sub, hwithin, Nat.mul_le_mul_left_iff hk] at hbelow habove
    exact ⟨hbelow, habove⟩
  · rintro ⟨hbelow, habove⟩
    constructor <;> simpa only [hmul, ← Nat.mul_sub, hwithin, Nat.mul_le_mul_left_iff hk]

theorem gapBelow_pos (steps : Nat) : 0 < gapBelow steps := by
  have hpos := gap_pos steps
  rcases gapBelow_cases steps with ⟨hbelow, -⟩ | ⟨hbelow, -, -⟩ <;> omega

theorem gapBelow_le_gap (steps : Nat) : gapBelow steps ≤ gap steps := by
  rcases gapBelow_cases steps with ⟨hbelow, -⟩ | ⟨hbelow, -, -⟩ <;> omega

/-- What rounds to a double is neither less than half of it nor more than twice
as much. -/
theorem RoundsTo.bounds {num den : Nat} (hsteps : 0 < steps) (h : RoundsTo steps num den) :
    steps * den ≤ 2 * num ∧ num ≤ 2 * (steps * den) := by
  have hgap : gap steps * den ≤ steps * den := Nat.mul_le_mul_right _ (gap_le hsteps)
  by_cases hle : steps * den ≤ num
  · have := within_iff.mp (h.above hle)
    omega
  · have := within_iff.mp (h.below (by omega))
    have hbelow : gapBelow steps * den ≤ gap steps * den :=
      Nat.mul_le_mul_right _ (gapBelow_le_gap steps)
    omega

theorem digitCount_zero : digitCount 0 = 0 := by
  rw [digitCount, dif_pos rfl]

theorem digitCount_of_pos {n : Nat} (hn : 0 < n) : digitCount n = digitCount (n / 10) + 1 := by
  rw [digitCount, dif_neg (by omega)]

/-- The number of digits bounds a number by powers of ten, from above and from
below. -/
theorem lt_ten_pow_digitCount (n : Nat) : n < 10 ^ digitCount n := by
  induction n using Nat.strongRecOn with
  | ind n ih =>
    rcases Nat.eq_zero_or_pos n with rfl | hpos
    · exact Nat.pow_pos (by decide)
    · have hless := ih (n / 10) (by omega)
      rw [digitCount_of_pos hpos, pow_succ]
      omega

theorem ten_pow_digitCount_le {n : Nat} (hn : 0 < n) : 10 ^ (digitCount n - 1) ≤ n := by
  induction n using Nat.strongRecOn with
  | ind n ih =>
    rw [digitCount_of_pos hn, Nat.add_sub_cancel]
    rcases Nat.eq_zero_or_pos (n / 10) with hzero | hpos
    · rw [hzero, digitCount_zero]
      exact hn
    · have hless := ih (n / 10) (by omega) hpos
      obtain ⟨k, hk⟩ : ∃ k, digitCount (n / 10) = k + 1 := ⟨_, digitCount_of_pos hpos⟩
      rw [hk, Nat.add_sub_cancel] at hless
      rw [hk, pow_succ]
      omega

namespace Digits

def num (d : Digits) : Nat := d.digits * (one * 10 ^ d.exponent.toNat)

def den (d : Digits) : Nat := 10 ^ (-d.exponent).toNat

theorem den_pos (d : Digits) : 0 < d.den := Nat.pow_pos (by decide)

section

variable {d : Digits} {steps : Nat} (hsteps : 0 < steps) (h : RoundsTo steps d.num d.den)

include hsteps h

theorem digits_pos : 0 < d.digits := by
  have hlow := (h.bounds hsteps).1
  have hpos : 0 < steps * d.den := Nat.mul_pos hsteps d.den_pos
  rcases Nat.eq_zero_or_pos d.digits with hzero | hpos
  · rw [num, hzero] at hlow
    omega
  · exact hpos

/-- Digits that round to a finite double have a bounded magnitude, so that
reading them back does not stop early at the exponent. -/
theorem magnitude_le (hfinite : steps < overflow) : d.exponent + digitCount d.digits ≤ 310 := by
  -- A larger magnitude is over twice the largest double, and no rounding reaches that far.
  by_contra hlarge
  have hhigh := (h.bounds hsteps).2
  have hlead := ten_pow_digitCount_le (digits_pos hsteps h)
  have hpow : 10 ^ (310 + (-d.exponent).toNat) ≤
      10 ^ (digitCount d.digits - 1) * 10 ^ d.exponent.toNat := by
    rw [← pow_add]
    exact Nat.pow_le_pow_right (by decide) (by omega)
  have hnum : one * (10 ^ 310 * d.den) ≤ d.num := by
    calc one * (10 ^ 310 * d.den)
        = one * 10 ^ (310 + (-d.exponent).toNat) := by rw [den, pow_add]
      _ ≤ one * (10 ^ (digitCount d.digits - 1) * 10 ^ d.exponent.toNat) :=
        Nat.mul_le_mul_left _ hpow
      _ ≤ one * (d.digits * 10 ^ d.exponent.toNat) :=
        Nat.mul_le_mul_left _ (Nat.mul_le_mul_right _ hlead)
      _ = d.num := by rw [num]; ring
  have hoverflow : overflow * 2 ≤ one * 10 ^ 310 := by decide +kernel
  have : 2 * (steps * d.den) < one * (10 ^ 310 * d.den) := by
    calc 2 * (steps * d.den) = steps * 2 * d.den := by ring
      _ < overflow * 2 * d.den := by
        apply Nat.mul_lt_mul_of_pos_right _ d.den_pos
        omega
      _ ≤ one * 10 ^ 310 * d.den := Nat.mul_le_mul_right _ hoverflow
      _ = one * (10 ^ 310 * d.den) := Nat.mul_assoc _ _ _
  omega

theorem le_magnitude : -330 ≤ d.exponent + digitCount d.digits := by
  by_contra hsmall
  have hlow := (h.bounds hsteps).1
  have hlead := lt_ten_pow_digitCount d.digits
  have hpow : 10 ^ (digitCount d.digits + d.exponent.toNat + 331) ≤ d.den :=
    Nat.pow_le_pow_right (by decide) (by omega)
  have hnum : d.num * 10 ^ 331 ≤ one * d.den := by
    calc d.num * 10 ^ 331 = one * (d.digits * 10 ^ d.exponent.toNat * 10 ^ 331) := by
          rw [num, Nat.mul_left_comm, Nat.mul_assoc]
      _ ≤ one * (10 ^ digitCount d.digits * 10 ^ d.exponent.toNat * 10 ^ 331) := by
        gcongr
      _ = one * 10 ^ (digitCount d.digits + d.exponent.toNat + 331) := by
        rw [pow_add, pow_add]
      _ ≤ one * d.den := Nat.mul_le_mul_left _ hpow
  have hone : one * 2 < 10 ^ 331 := by decide +kernel
  generalize 10 ^ 331 = far at hnum hone
  have hden : d.den ≤ 2 * d.num := Nat.le_trans (Nat.le_mul_of_pos_left _ hsteps) hlow
  have : one * 2 * d.num < d.num * far := by
    rw [Nat.mul_comm d.num]
    exact Nat.mul_lt_mul_of_pos_right hone (by have := d.den_pos; omega)
  have : one * d.den ≤ one * 2 * d.num := by
    rw [Nat.mul_assoc]
    exact Nat.mul_le_mul_left _ hden
  omega

/-- Digits that round to a double are read as it. -/
theorem toDouble?_of_roundsTo (negative : Bool) (hfinite : steps < overflow)
    (hwhole : gap steps ∣ steps) :
    toDouble? negative d.digits d.exponent = some ⟨negative, steps⟩ := by
  obtain ⟨m, hm⟩ := hwhole
  rw [Nat.mul_comm] at hm
  have hround := round?_of_roundsTo hsteps d.den_pos hm negative hfinite h
  have hpos := digits_pos hsteps h
  have hlow := le_magnitude hsteps h
  have hhigh := magnitude_le hsteps h hfinite
  simp only [toDouble?]
  rw [if_neg (by omega), if_neg (by omega)]
  split
  next hexp =>
    have hden : d.den = 1 := by
      rw [den, Int.toNat_of_nonpos (by omega), pow_zero]
    have hnum : d.digits * Nat.pow 10 d.exponent.toNat * one = d.num := by
      rw [num, ← Nat.mul_assoc, Nat.mul_right_comm]
      rfl
    rw [hnum, ← hden]
    exact hround
  next hexp =>
    have hnum : d.num = d.digits * one := by
      rw [num, Int.toNat_of_nonpos (by omega), pow_zero, Nat.mul_one]
    rw [hnum] at hround
    exact hround

end

/-- Zeros at the end may be left out, for they move into the exponent. -/
theorem roundsTo_strip {d : Digits} {steps : Nat} (h : RoundsTo steps d.num d.den) :
    RoundsTo steps d.strip.num d.strip.den := by
  fun_induction strip d with
  | case1 d hzero ih =>
    apply ih
    obtain ⟨n, hn⟩ : ∃ n, d.digits = n * 10 := ⟨d.digits / 10, by omega⟩
    have hdiv : d.digits / 10 = n := by omega
    by_cases hexp : 0 ≤ d.exponent
    · -- A digit less, and a power of ten more.
      have hnum : num ⟨d.digits / 10, d.exponent + 1⟩ = d.num := by
        simp only [num]
        rw [hdiv, hn, Int.toNat_add hexp (by decide), pow_add]
        change n * (one * (_ * 10)) = _
        ring
      have hden : den ⟨d.digits / 10, d.exponent + 1⟩ = d.den := by
        simp only [den]
        rw [Int.toNat_of_nonpos (by omega), Int.toNat_of_nonpos (by omega)]
      rwa [hnum, hden]
    · have hnum : d.num = 10 * num ⟨d.digits / 10, d.exponent + 1⟩ := by
        simp only [num]
        rw [hdiv, hn, Int.toNat_of_nonpos (by omega), Int.toNat_of_nonpos (by omega),
          Nat.mul_comm n, Nat.mul_assoc]
      have hden : d.den = 10 * den ⟨d.digits / 10, d.exponent + 1⟩ := by
        have hless : (-d.exponent).toNat = (-(d.exponent + 1)).toNat + 1 := by omega
        rw [den, den, hless, pow_succ']
      rw [hnum, hden] at h
      exact (RoundsTo.scale (by decide)).mp h
  | case2 d hdone => exact h

end Digits

/-! ## The search for the fewest digits -/

theorem Grid.of_eq (steps : Nat) (exponent : Int) :
    Grid.of steps exponent =
      ⟨exponent, steps * 10 ^ (-exponent).toNat, one * 10 ^ exponent.toNat,
        10 ^ (-exponent).toNat⟩ := by
  simp only [Grid.of]
  split
  next hexp =>
    rw [Int.toNat_of_nonpos (z := -exponent) (by omega), pow_zero, Nat.mul_one]
    rfl
  next hexp =>
    rw [Int.toNat_of_nonpos (z := exponent) (by omega), pow_zero, Nat.mul_one]
    rfl

theorem Grid.of_den_pos (steps : Nat) (exponent : Int) : 0 < (Grid.of steps exponent).den := by
  rw [Grid.of_eq]
  change 0 < one * 10 ^ exponent.toNat
  exact Nat.mul_pos Double.one_pos (Nat.pow_pos (by decide))

/-- What is picked on a grid rounds to the double: it is a neighbour of the
double, and near enough by the test that is made. -/
theorem roundsTo_of_pick? {digits : Nat} {grid : Grid} (hnum : grid.num = steps * grid.scale)
    (hden : 0 < grid.den) (hscale : 0 < grid.scale)
    (h : grid.pick? tie steps = some digits) : RoundsTo steps (digits * grid.den) grid.scale := by
  have hlow : grid.num / grid.den * grid.den ≤ grid.num := Nat.div_mul_le_self _ _
  have hhigh : grid.num < (grid.num / grid.den + 1) * grid.den := by
    rw [Nat.mul_comm]
    exact Nat.lt_mul_div_succ _ hden
  simp only [Grid.pick?] at h
  rw [hnum] at h hlow hhigh
  -- Either neighbour is picked only if it is within half a gap.
  have hbelow : within steps (2 * (steps * grid.scale - steps * grid.scale / grid.den * grid.den))
      (gapBelow steps * grid.scale) = true →
      RoundsTo steps (steps * grid.scale / grid.den * grid.den) grid.scale := by
    intro hhits
    refine ⟨fun _ => hhits, fun hle => ?_⟩
    have hzero : 2 * (steps * grid.scale / grid.den * grid.den - steps * grid.scale) = 0 := by omega
    rw [hzero]
    exact within_iff.mpr (.inl (Nat.mul_pos (gap_pos steps) hscale))
  have habove : within steps
      (2 * ((steps * grid.scale / grid.den + 1) * grid.den - steps * grid.scale))
      (gap steps * grid.scale) = true →
      RoundsTo steps ((steps * grid.scale / grid.den + 1) * grid.den) grid.scale :=
    fun hhits => ⟨fun hle => absurd hle (by omega), fun _ => hhits⟩
  split at h
  next => cases h
  next hhits _ =>
    cases h
    exact hbelow hhits
  next _ hhits =>
    cases h
    exact habove hhits
  next hlowHits hhighHits =>
    split at h
    · cases h
      exact hbelow hlowHits
    · split at h
      · cases h
        exact habove hhighHits
      · cases tie with
        | up =>
          cases h
          exact habove hhighHits
        | toEven =>
          simp only [Option.some.injEq] at h
          split at h <;> cases h
          · exact hbelow hlowHits
          · exact habove hhighHits

/-- On a grid finer than the gaps one of the neighbours is picked, because they
are less than a gap apart. -/
theorem pick?_isSome {grid : Grid} (hden : 0 < grid.den)
    (hfine : grid.den < gapBelow steps * grid.scale) : (grid.pick? tie steps).isSome = true := by
  have hlow : grid.num / grid.den * grid.den ≤ grid.num := Nat.div_mul_le_self _ _
  have hhigh : grid.num < (grid.num / grid.den + 1) * grid.den := by
    rw [Nat.mul_comm]
    exact Nat.lt_mul_div_succ _ hden
  simp only [Grid.pick?]
  split
  next hlowHits hhighHits =>
    exfalso
    have hmissLow := mt within_iff.mpr (Bool.not_eq_true _ ▸ hlowHits)
    have hmissHigh := mt within_iff.mpr (Bool.not_eq_true _ ▸ hhighHits)
    have hgap : gapBelow steps * grid.scale ≤ gap steps * grid.scale :=
      Nat.mul_le_mul_right _ (gapBelow_le_gap steps)
    change ¬(_ < gap steps * grid.scale ∨ _) at hmissHigh
    rw [Nat.add_mul, Nat.one_mul] at hhigh hmissHigh
    omega
  next => rfl
  next => rfl
  next =>
    split
    · rfl
    · split
      · rfl
      · cases tie <;> rfl

theorem le_gapBelow (hsteps : 0 < steps) : steps ≤ 2 ^ 53 * gapBelow steps := by
  rcases gapBelow_cases steps with ⟨hbelow, -⟩ | ⟨hbelow, hpower, htwo⟩
  · rw [hbelow]
    rcases gap_cases hsteps with ⟨hone, hbits⟩ | ⟨-, -, hto⟩
    · omega
    · omega
  · obtain ⟨k, hk, hk'⟩ := exists_gapBelow_eq hbelow hpower htwo
    rw [hk, ← pow_add, ← hk']

/-- The leading exponent does not go beyond the number, so the search begins
with at least one digit. -/
theorem leadingExponent_le (hsteps : 0 < steps) :
    one * 10 ^ (leadingExponent steps).toNat ≤ steps * 10 ^ (-leadingExponent steps).toNat := by
  unfold leadingExponent
  split
  next hle =>
    have hpos : 0 < steps / one := Nat.div_pos hle Double.one_pos
    have hcount := digitCount_of_pos hpos
    rw [Int.toNat_of_nonpos (z := -_) (by omega), pow_zero, Nat.mul_one]
    have hlead := ten_pow_digitCount_le hpos
    have hnat : ((digitCount (steps / one) : Int) - 1).toNat = digitCount (steps / one) - 1 := by
      omega
    rw [hnat]
    calc one * 10 ^ (digitCount (steps / one) - 1) ≤ one * (steps / one) :=
          Nat.mul_le_mul_left _ hlead
      _ ≤ steps := Nat.mul_div_le _ _
  next hlt =>
    rw [Int.toNat_of_nonpos (z := -_) (by omega), pow_zero, Nat.mul_one, Int.neg_neg,
      Int.toNat_natCast]
    -- The quotient rounded up is at most the power of ten above the one below it.
    have hlead := lt_ten_pow_digitCount ((one + steps - 1) / steps - 1)
    have hup : one ≤ steps * ((one + steps - 1) / steps) := by
      have hrest := Nat.lt_mul_div_succ (one + steps - 1) hsteps
      rw [Nat.mul_add, Nat.mul_one] at hrest
      omega
    exact Nat.le_trans hup (Nat.mul_le_mul_left _ (by omega))

/-- Sixteen digits behind the leading one the grid is finer than the gaps. -/
theorem grid_fine (hsteps : 0 < steps) : one * 10 ^ (leadingExponent steps - 16).toNat <
      gapBelow steps * 10 ^ (-(leadingExponent steps - 16)).toNat := by
  have hlead := leadingExponent_le hsteps
  generalize leadingExponent steps = e at hlead
  have hsteps' : steps < gapBelow steps * 10 ^ 16 := by
    have hle := le_gapBelow hsteps
    have hpos := gapBelow_pos steps
    omega
  -- Both sides are multiplied by the same power of ten, up to the sixteen digits.
  obtain ⟨a, ha, hb⟩ : ∃ a : Nat, 10 ^ a * 10 ^ (e - 16).toNat = 10 ^ e.toNat ∧
      10 ^ a * 10 ^ (-(e - 16)).toNat = 10 ^ (-e).toNat * 10 ^ 16 := by
    by_cases hexp : 16 ≤ e
    · refine ⟨16, ?_, ?_⟩
      · rw [← pow_add]
        congr 1
        omega
      · rw [Int.toNat_of_nonpos (by omega), Int.toNat_of_nonpos (by omega)]
        rfl
    · refine ⟨e.toNat, ?_, ?_⟩
      · rw [Int.toNat_of_nonpos (z := e - 16) (by omega), pow_zero, Nat.mul_one]
      · rw [← pow_add, ← pow_add]
        congr 1
        omega
  apply Nat.lt_of_mul_lt_mul_left (a := 10 ^ a)
  calc 10 ^ a * (one * 10 ^ (e - 16).toNat)
      = one * 10 ^ e.toNat := by rw [Nat.mul_left_comm, ha]
    _ ≤ steps * 10 ^ (-e).toNat := hlead
    _ < gapBelow steps * 10 ^ 16 * 10 ^ (-e).toNat :=
        Nat.mul_lt_mul_of_pos_right hsteps' (Nat.pow_pos (by decide))
    _ = 10 ^ a * (gapBelow steps * 10 ^ (-(e - 16)).toNat) := by
        rw [Nat.mul_left_comm (10 ^ a), hb]
        ring

theorem roundsTo_of_grid {digits : Nat} {exponent : Int}
    (h : (Grid.of steps exponent).pick? tie steps = some digits) :
    RoundsTo steps (Digits.num ⟨digits, exponent⟩) (Digits.den ⟨digits, exponent⟩) := by
  have hden := Grid.of_den_pos steps exponent
  rw [Grid.of_eq] at h hden
  have hrounds := roundsTo_of_pick? (by rfl) hden (Nat.pow_pos (by decide)) h
  exact hrounds

/-- The search ends with a hit if the finest of its grids has one. -/
theorem roundsTo_search {more : Nat} {exponent : Int}
    (h : ((Grid.of steps (exponent - more)).pick? tie steps).isSome = true) :
    RoundsTo steps (search tie steps exponent more).num (search tie steps exponent more).den := by
  induction more generalizing exponent with
  | zero =>
    rw [Int.natCast_zero, Int.sub_zero] at h
    obtain ⟨digits, hdigits⟩ := Option.isSome_iff_exists.mp h
    simp only [search, hdigits, Option.getD_some]
    exact roundsTo_of_grid hdigits
  | succ more ih =>
    simp only [search]
    split
    next digits hdigits => exact roundsTo_of_grid hdigits
    next =>
      apply ih
      rw [Int.sub_sub, Int.add_comm 1]
      exact h

/-- The digits that are found round to the double that they were found for,
whichever way ties are broken. -/
theorem roundsTo_shortest (tie : Tie) (hsteps : 0 < steps) :
    RoundsTo steps (shortest tie steps).num (shortest tie steps).den := by
  apply Digits.roundsTo_strip
  apply roundsTo_search
  apply pick?_isSome (Grid.of_den_pos steps _)
  rw [Grid.of_eq]
  exact grid_fine hsteps

end Decimal

end BlockLang
