import BlockLang.Proofs.BlockRecognition
import BlockLang.Proofs.Decimals
import BlockLang.Proofs.ParsedTrees

/-! # Schemas that were read

The name of a schema in a source is a word, and the numbers among the arguments of its fields are
doubles: numerals are rounded when they are read.
-/

namespace BlockLang

/-! ## Rounded numbers -/

namespace Double

theorem roundDiv_le (num den : Nat) : roundDiv num den ≤ num / den + 1 := by
  simp only [roundDiv]
  split_ifs <;> omega

/-- What a number is rounded to is a double, also if it is rounded up to a power
of two, where the gap is twice as wide. -/
theorem representable_of_round? {negative : Bool} {num den : Nat} {x : Double}
    (h : round? negative num den = some x) : x.Representable := by
  obtain ⟨k, hk⟩ : ∃ k, gapExponent (num / den) = k := ⟨_, rfl⟩
  have hbits : num / den < 2 ^ (53 + k) := by
    refine Nat.lt_of_lt_of_le Nat.lt_log2_self (Nat.pow_le_pow_right (by decide) ?_)
    rw [gapExponent] at hk
    omega
  have hround : roundDiv num (den * 2 ^ k) ≤ 2 ^ 53 := by
    have hquotient : num / (den * 2 ^ k) < 2 ^ 53 := by
      rw [← Nat.div_div_eq_div_mul, Nat.div_lt_iff_lt_mul (Nat.two_pow_pos k), ← pow_add]
      exact hbits
    exact Nat.le_trans (roundDiv_le num _) hquotient
  have hdef : round? negative num den =
      if roundDiv num (den * 2 ^ k) * 2 ^ k < overflow then
        some ⟨negative, roundDiv num (den * 2 ^ k) * 2 ^ k⟩ else none := by
    rw [← hk]
    rfl
  rw [hdef] at h
  split at h
  next hfinite =>
    cases h
    refine ⟨hfinite, ?_⟩
    -- The quotient has 53 bits, or was rounded up to the power of two above them.
    rcases Nat.lt_or_eq_of_le hround with hlt | heq
    · apply Nat.dvd_mul_left_of_dvd
      apply gap_dvd
      rw [pow_add]
      exact Nat.mul_lt_mul_of_pos_right hlt (Nat.two_pow_pos k)
    · change gap (roundDiv num (den * 2 ^ k) * 2 ^ k) ∣ roundDiv num (den * 2 ^ k) * 2 ^ k
      rw [heq, ← pow_add]
      have hgap : gap (2 ^ (53 + k)) ∣ 2 ^ (k + 1) :=
        gap_dvd (Nat.pow_lt_pow_right (by decide) (by omega))
      exact hgap.trans (Nat.pow_dvd_pow 2 (by omega))
  next => cases h

end Double

namespace Decimal

open Double

theorem representable_of_toDouble? {negative : Bool} {digits : Nat} {exponent : Int} {x : Double}
    (h : toDouble? negative digits exponent = some x) : x.Representable := by
  simp only [toDouble?] at h
  split_ifs at h with hzero
  · cases h
    have hfinite : 0 < overflow := by decide +kernel
    exact ⟨hfinite, Nat.dvd_zero _⟩
  · exact representable_of_round? h
  · exact representable_of_round? h

theorem representable_of_readDigits? {negative : Bool} {cs : List Char} {x : Double}
    (h : readDigits? negative cs = some (.finite x)) : x.Representable := by
  simp only [readDigits?, Option.bind_eq_bind, Option.bind_eq_some_iff] at h
  obtain ⟨exponent, -, h⟩ := h
  split_ifs at h
  split at h
  next hdouble =>
    cases h
    exact representable_of_toDouble? hdouble
  next => cases h

/-- A number that is read from a text is a double. -/
theorem representable_of_readFinite? {s : String} {x : Double} (h : readFinite? s = some x) :
    x.Representable := by
  have hread : read? s = some (.finite x) := by
    unfold readFinite? at h
    split at h
    next heq => rw [heq, Option.some.inj h]
    next => cases h
  simp only [read?] at hread
  split_ifs at hread
  · cases hread
  · cases hread
  · exact representable_of_readDigits? hread

end Decimal

/-! ## Arguments -/

/-- Whether the numbers among arguments are doubles. -/
def Arguments.Rounded (arguments : Arguments) : Prop :=
  ∀ key x, arguments.lookup key = some (.number x) → x.Representable

/-- An argument that is given again replaces the one before. -/
theorem Arguments.lookup_insert (key k : String) (value : Argument) (arguments : Arguments) :
    (arguments.insert key value).lookup k =
      if k = key then some value else arguments.lookup k := by
  induction arguments with
  | nil => grind [Arguments.insert]
  | cons argument arguments ih => grind [Arguments.insert]

theorem Arguments.Rounded.insert {arguments : Arguments} (h : arguments.Rounded) (key : String)
    {value : Argument} (hvalue : ∀ x, value = .number x → x.Representable) :
    (arguments.insert key value).Rounded := by
  intro k x hx
  rw [Arguments.lookup_insert] at hx
  split_ifs at hx
  · exact hvalue x (Option.some.inj hx)
  · exact h k x hx

theorem Arguments.Rounded.number? {f : Field} (h : f.arguments.Rounded) {key : String} {x : Double}
    (hx : f.number? key = some x) : x.Representable := by
  unfold Field.number? at hx
  split at hx
  next hlookup =>
    cases hx
    exact h key _ hlookup
  next => cases hx

theorem representable_of_argumentOf {text : String} {x : Double}
    (h : Parser.argumentOf text = .number x) : x.Representable := by
  unfold Parser.argumentOf at h
  split at h
  next hread =>
    cases h
    exact Decimal.representable_of_readFinite? hread
  next => cases h

namespace Grammar

/-- The arguments that items make hold doubles, whatever the items are. -/
theorem rounded_argumentsOf (items : List Item) : (argumentsOf items).Rounded := by
  have hkeyed : ∀ keyed : Arguments, keyed.Rounded → (items.foldl Item.set keyed).Rounded := by
    induction items with
    | nil => exact fun keyed h => h
    | cons item items ih =>
        intro keyed h
        apply ih
        cases item with
        | keyed key value => exact h.insert key fun x hx => representable_of_argumentOf hx
        | separator => exact h
        | variant text => exact h
  have hfold : (items.foldl Item.set []).Rounded := hkeyed [] fun key x h => by cases h
  unfold argumentsOf
  simp only
  split
  · exact hfold
  · exact hfold.insert enumKey fun x hx => by cases hx

theorem IsField.rounded {ts : List Token} {f : Field} (h : IsField ts f) :
    f.arguments.Rounded := by
  obtain ⟨-, -, -, harguments, -⟩ := h
  cases harguments with
  | absent => exact fun key x h => by cases h
  | present hopening hitems hclosing => exact rounded_argumentsOf _

theorem Listed.forall_mem {α : Type} {item : Phrase α} {P : α → Prop}
    (hitem : ∀ ts a, item ts a → P a) {ts : List Token} {as : List α} (h : Listed item ts as) :
    ∀ a ∈ as, P a := by
  induction h with
  | close => simp
  | cons _ ha _ ih => exact List.forall_mem_cons.mpr ⟨hitem _ _ ha, ih⟩

end Grammar

/-! ## Schemas -/

/-- Whether a schema is one that a source can declare: its name is a word, and
the numbers among the arguments of its fields are doubles. -/
structure Schema.WellFormed (s : Schema) : Prop where
  name : Text.IsWord s.name
  rounded : ∀ f ∈ s.fields, f.arguments.Rounded

namespace Parser

theorem block_rounded {source : List UInt8} {t : Token} {ts later : Tokens} {tree : Tree}
    (h : block source t ts = .ok (tree, later)) :
    ∀ s ∈ tree.schemas, ∀ f ∈ s.fields, f.arguments.Rounded := by
  rcases block_cases h with ⟨used, -, hblock⟩ | ⟨-, a, rfl, -⟩ | rfl
  · cases hblock with
    | data _ _ _ hfields =>
        rintro s hs
        obtain rfl := List.mem_singleton.mp hs
        exact hfields.forall_mem fun _ _ hfield => hfield.rounded
    | _ => simp
  · simp [ofAction]
  · simp

theorem Reads.rounded {source : List UInt8} {ts last : Tokens} {tree : Tree}
    (h : Reads source ts tree last) :
    ∀ s ∈ tree.schemas, ∀ f ∈ s.fields, f.arguments.Rounded := by
  induction h with
  | done => simp
  | step _ hblock _ ih => exact List.forall_mem_append.mpr ⟨block_rounded hblock, ih⟩

/-- The schemas of a source are well-formed. -/
theorem wellFormed_of_ofSource {source : String} {tree : Tree}
    (h : Tree.ofSource source = .ok tree) : ∀ s ∈ tree.schemas, s.WellFormed := by
  obtain ⟨last, hreads, -⟩ := ofBytes_eq_ok_iff.mp h
  intro s hs
  exact ⟨((wellRead_of_ofSource h).named.schemas s hs).1, hreads.rounded s hs⟩

end Parser

end BlockLang
