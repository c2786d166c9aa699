import BlockLang.Proofs.Grammar
import BlockLang.Proofs.Readers

/-! # Readers accept exactly the grammar

A reader of a rule takes a phrase of the rule from the front of the tokens, and it takes every such
phrase that nothing behind it continues. Here this is stated for readers at large, and proved for
single tokens, for lists between braces and for the fields of a schema.
-/

namespace BlockLang

namespace Parser

open Grammar

variable {α : Type} {stop : Position} {ts rest : List Token}

/-- A reader reads the phrases of a rule, each if what follows it does not
continue it. -/
structure Recognizes (read : List Token → Outcome α) (phrase : Phrase α)
    (ends : List Token → Prop) : Prop where
  sound : ∀ {ts a rest}, read ts = .ok (a, rest) → ∃ used, ts = used ++ rest ∧ phrase used a
  complete : ∀ {used a rest}, phrase used a → ends rest → read (used ++ rest) = .ok (a, rest)

/-! ## Single tokens -/

variable {t : Token} {s : String} {m : Mark} {used : List Token} {keyed : Arguments}
  {variants : List String}

theorem word_eq_some_iff : word t = some s ↔ t.kind.isWord = true ∧ t.text = s := by
  simp [word]

theorem string_eq_some_iff : string t = some s ↔ t.kind = .string ∧ t.text = s := by
  simp [string]

theorem wordOrString_eq_some_iff : wordOrString t = some s ↔ IsLabel t ∧ t.text = s := by
  by_cases hword : t.kind.isWord = true
  · simp [wordOrString, word, IsLabel, hword]
  · simp [wordOrString, word, string, IsLabel, hword]

theorem verb_eq_some_iff {v : Verb} {line : Nat} :
    verb t = some (v, line) ↔ t.kind = .verb v ∧ t.position.line = line := by
  cases hkind : t.kind <;> simp [verb, hkind]

theorem ne_mark_of_isWord (h : t.kind.isWord = true) (m : Mark) : t.kind ≠ .mark m := by
  intro hmark
  simp [hmark, Token.Kind.isWord] at h

theorem not_literal_of_isWord (h : t.kind.isWord = true) :
    ¬ (t.kind = .string ∨ t.kind = .number) := by
  rintro (hkind | hkind) <;> simp [hkind, Token.Kind.isWord] at h

theorem expectMark_eq_ok_iff {u : Unit} :
    expectMark stop m ts = .ok (u, rest) ↔ ∃ t, ts = t :: rest ∧ t.kind = .mark m := by
  simp [expectMark, expect_eq_ok_iff, isMark_iff]

theorem expect_word (h : t.kind.isWord = true) (expected : Expectation) :
    expect stop expected word (t :: rest) = .ok (t.text, rest) :=
  expect_eq_ok_iff.mpr ⟨t, rfl, word_eq_some_iff.mpr ⟨h, rfl⟩⟩

theorem expect_string (h : t.kind = .string) (expected : Expectation) :
    expect stop expected string (t :: rest) = .ok (t.text, rest) :=
  expect_eq_ok_iff.mpr ⟨t, rfl, string_eq_some_iff.mpr ⟨h, rfl⟩⟩

theorem expect_label (h : IsLabel t) (expected : Expectation) :
    expect stop expected wordOrString (t :: rest) = .ok (t.text, rest) :=
  expect_eq_ok_iff.mpr ⟨t, rfl, wordOrString_eq_some_iff.mpr ⟨h, rfl⟩⟩

theorem expectMark_mark (h : t.kind = .mark m) : expectMark stop m (t :: rest) = .ok ((), rest) :=
  expectMark_eq_ok_iff.mpr ⟨t, rfl, h⟩

/-! ## Lists between braces -/

/-- All commas in front are skipped, so what follows them must not begin with
another one. -/
theorem skipCommas_append {commas : List Token} (hcommas : ∀ t ∈ commas, t.kind = .mark .comma)
    (h : NoMark .comma ts) : skipCommas (commas ++ ts) = ts := by
  rw [skipCommas, List.dropWhile_append_of_pos fun t ht => isMark_iff.mpr (hcommas t ht)]
  cases ts with
  | nil => rfl
  | cons t later =>
      apply List.dropWhile_cons_of_neg
      rw [isMark_iff]
      exact h t rfl

theorem exists_commas (ts : List Token) :
    ∃ commas, ts = commas ++ skipCommas ts ∧ ∀ t ∈ commas, t.kind = .mark .comma :=
  ⟨ts.takeWhile (isMark .comma), List.takeWhile_append_dropWhile.symm,
    fun _ ht => isMark_iff.mp (List.mem_takeWhile_imp ht)⟩

/-- A list between braces is read if its items are, and if no item begins like
what ends the list or continues the item before it. -/
theorem recognizes_untilBrace {item : Rule α} {phrase : Phrase α} {ends : List Token → Prop}
    (hitem : Recognizes item.read phrase ends)
    (hcomma : ∀ {used a rest}, phrase used a → NoMark .comma (used ++ rest))
    (hclose : ∀ {used a rest}, phrase used a → NoMark .braceClose (used ++ rest))
    (hends : ∀ {used as rest}, Listed phrase used as → ends (used ++ rest)) :
    Recognizes item.untilBrace (Listed phrase) fun _ => True where
  -- The induction is that of the reader, in which each item uses up a token.
  sound := by
    intro ts
    fun_induction item.untilBrace ts with
    | case1 ts rest heat =>
        intro as rest' h
        obtain ⟨rfl, rfl⟩ := Prod.mk.inj (Except.ok.inj h)
        obtain ⟨commas, hts, hcommas⟩ := exists_commas ts
        obtain ⟨brace, hskip, hbrace⟩ := eat_eq_true_iff.mp heat
        refine ⟨commas ++ [brace], ?_, .close hcommas hbrace⟩
        rw [List.append_assoc, List.singleton_append, ← hskip, ← hts]
    | case2 | case3 => intro as rest' h; cases h
    | case4 ts rest heat a later ha _ more last hmore ih =>
        intro as rest' h
        obtain ⟨rfl, rfl⟩ := Prod.mk.inj (Except.ok.inj h)
        obtain ⟨commas, hts, hcommas⟩ := exists_commas ts
        obtain ⟨rfl, -⟩ := eat_eq_false_iff.mp heat
        obtain ⟨used, hused, hphrase⟩ := hitem.sound ha
        obtain ⟨others, rfl, hlisted⟩ := ih hmore
        refine ⟨commas ++ (used ++ others), ?_, .cons hcommas hphrase hlisted⟩
        rw [List.append_assoc, List.append_assoc, ← hused, ← hts]
  complete := by
    intro used as rest h _
    induction h with
    | close hcommas hbrace =>
        rename_i commas brace
        have hskip : skipCommas (commas ++ [brace] ++ rest) = brace :: rest := by
          rw [List.append_assoc]
          exact skipCommas_append hcommas (by simp [NoMark, hbrace])
        rw [untilBrace_eq, hskip, eat_eq_true_iff.mpr ⟨brace, rfl, hbrace⟩]
    | cons hcommas hphrase hrest ih =>
        rename_i commas used others a as
        have hskip : skipCommas (commas ++ (used ++ others) ++ rest) =
            used ++ (others ++ rest) := by
          rw [List.append_assoc, List.append_assoc]
          exact skipCommas_append hcommas (hcomma hphrase)
        rw [untilBrace_eq, hskip, eat_eq_false_iff.mpr ⟨rfl, hclose hphrase⟩]
        simp only
        rw [hitem.complete hphrase (hends hrest)]
        simp only
        rw [ih]

/-- What begins a list between braces is a comma, the closing brace or what
begins an item. -/
theorem head_listed {phrase : Phrase α} {P : Token → Prop} {as : List α} (h : Listed phrase used as)
    (hcomma : ∀ t, t.kind = .mark .comma → P t)
    (hclose : ∀ t, t.kind = .mark .braceClose → P t)
    (hitem : ∀ {used a}, phrase used a → ∃ t us, used = t :: us ∧ P t) :
    ∃ t us, used = t :: us ∧ P t := by
  cases h with
  | close hcommas hbrace =>
      rename_i commas brace
      cases commas with
      | nil => exact ⟨brace, [], rfl, hclose brace hbrace⟩
      | cons comma commas => exact ⟨comma, _, rfl, hcomma comma (hcommas comma (by simp))⟩
  | cons hcommas hphrase hrest =>
      rename_i commas used others a as
      cases commas with
      | nil =>
          obtain ⟨t, us, rfl, ht⟩ := hitem hphrase
          exact ⟨t, us ++ others, rfl, ht⟩
      | cons comma commas => exact ⟨comma, _, rfl, hcomma comma (hcommas comma (by simp))⟩

/-! ## Fields -/

theorem isArgumentValue_iff : isArgumentValue t = true ↔ IsValue t := by
  simp [isArgumentValue, IsValue, or_assoc]

/-- What the reader has collected is what the grammar says of the items, with
the values without a key at the end. -/
theorem withVariants_foldl (items : List Item) :
    withVariants (items.foldl Item.set []) (items.filterMap Item.variant?) = argumentsOf items := by
  unfold withVariants argumentsOf
  cases items.filterMap Item.variant? with
  | nil => rfl
  | cons text texts => rfl

/-- An item begins with no colon, so a word in front of it has no key. -/
theorem noMark_colon_items {items : List Item} {closing : Token} (h : Many IsItem ts items)
    (hclosing : closing.kind = .mark .parenClose) : NoMark .colon (ts ++ closing :: rest) := by
  intro t ht hcolon
  cases h with
  | nil => simp_all
  | cons hitem _ =>
      cases hitem with
      | separator h => simp_all
      | variant h => simp_all [IsValue, Token.Kind.isWord]
      | keyed hkey _ _ => simp_all [Token.Kind.isWord]

/-- Whether tokens begin with items up to a closing parenthesis that add up to
some arguments, behind those read before. -/
def ItemsAhead (keyed : Arguments) (variants : List String) (found : Arguments)
    (ts rest : List Token) : Prop :=
  ∃ used items closing, ts = used ++ closing :: rest ∧ Many IsItem used items ∧
    closing.kind = .mark .parenClose ∧
    found = withVariants (items.foldl Item.set keyed) (variants ++ items.filterMap Item.variant?)

/-- One item in front of others adds to what was read before, as the reader does
it. -/
theorem ItemsAhead.cons {found : Arguments} {item : Item} (hitem : IsItem used item)
    (h : ItemsAhead (item.set keyed) (variants ++ item.variant?.toList) found ts rest) :
    ItemsAhead keyed variants found (used ++ ts) rest := by
  obtain ⟨us, items, closing, rfl, hitems, hclosing, rfl⟩ := h
  refine ⟨used ++ us, item :: items, closing, (List.append_assoc ..).symm, .cons hitem hitems,
    hclosing, ?_⟩
  cases item <;> simp [Item.variant?, List.filterMap_cons]

/-- The arguments that are read are those of some items in front, up to the
parenthesis that closes them. -/
theorem arguments_sound {found : Arguments}
    (h : arguments stop keyed variants ts = .ok (found, rest)) :
    ItemsAhead keyed variants found ts rest := by
  fun_induction arguments stop keyed variants ts with
  | case1 | case5 | case6 | case8 | case10 => cases h
  | case2 keyed variants closing later hclosing =>
      obtain ⟨rfl, rfl⟩ := Prod.mk.inj (Except.ok.inj h)
      exact ⟨[], [], closing, rfl, .nil, isMark_iff.mp hclosing, by simp⟩
  | case3 keyed variants t later _ hmark ih =>
      simp only [isMark_iff] at hmark
      exact ItemsAhead.cons (.separator hmark) (by simpa [Item.set, Item.variant?] using ih h)
  | case4 keyed variants t later _ _ hkind ih =>
      exact ItemsAhead.cons (.variant (.inr hkind)) (ih h)
  | case7 keyed variants key _ _ _ hkey colon hcolon value later hvalue ih =>
      have hitem := IsItem.keyed hkey (isMark_iff.mp hcolon) (isArgumentValue_iff.mp hvalue)
      exact ItemsAhead.cons hitem (by simpa [Item.set, Item.variant?] using ih h)
  | case9 keyed variants t _ _ _ hword colon later _ ih =>
      exact ItemsAhead.cons (.variant (.inl hword)) (ih h)

/-- Arguments that begin with an item are read on behind it. -/
theorem arguments_item {item : Item} (hitem : IsItem ts item) (hcolon : NoMark .colon rest) :
    arguments stop keyed variants (ts ++ rest) =
      arguments stop (item.set keyed) (variants ++ item.variant?.toList) rest := by
  rw [arguments.eq_def]
  cases hitem with
  | separator hmark =>
      rcases hmark with hmark | hmark <;> simp [isMark, hmark, Item.set, Item.variant?]
  | variant hvalue =>
      rename_i t
      rcases hvalue with hword | hkind
      · have hmark := ne_mark_of_isWord hword
        have hliteral := not_literal_of_isWord hword
        -- A word is followed by no colon, or by nothing, where reading on fails as well.
        cases rest with
        | nil => simp [isMark, hmark, hliteral, hword, arguments]
        | cons colon later =>
            have : colon.kind ≠ .mark .colon := hcolon colon rfl
            simp [isMark, hmark, hliteral, hword, this, Item.set, Item.variant?]
      · rcases hkind with hkind | hkind <;> simp [isMark, hkind, Item.set, Item.variant?]
  | keyed hkey hcolon hvalue =>
      simp [isMark, ne_mark_of_isWord hkey, not_literal_of_isWord hkey, hkey, hcolon,
        isArgumentValue_iff.mpr hvalue, Item.set, Item.variant?]

theorem arguments_complete {items : List Item} {closing : Token} (hitems : Many IsItem ts items)
    (hclosing : closing.kind = .mark .parenClose) :
    arguments stop keyed variants (ts ++ closing :: rest) =
      .ok (withVariants (items.foldl Item.set keyed)
        (variants ++ items.filterMap Item.variant?), rest) := by
  induction hitems generalizing keyed variants with
  | nil =>
      rw [List.nil_append, arguments.eq_def]
      simp [isMark, hclosing]
  | cons hitem hmore ih =>
      rename_i us ts item items
      rw [List.append_assoc, arguments_item hitem (noMark_colon_items hmore hclosing), ih]
      cases item <;> simp [Item.variant?, List.filterMap_cons]

/-- Arguments may be left out. -/
theorem recognizes_optionalArguments (stop : Position) :
    Recognizes (optionalArguments stop) IsArguments (NoMark .parenOpen) where
  sound := by
    intro ts found rest h
    unfold optionalArguments at h
    split at h
    next later heat =>
      obtain ⟨opening, rfl, hopening⟩ := eat_eq_true_iff.mp heat
      obtain ⟨used, items, closing, rfl, hitems, hclosing, rfl⟩ := arguments_sound h
      refine ⟨opening :: (used ++ [closing]), by simp, ?_⟩
      rw [List.nil_append, withVariants_foldl]
      exact .present hopening hitems hclosing
    next later heat =>
      obtain ⟨rfl, rfl⟩ := Prod.mk.inj (Except.ok.inj h)
      obtain ⟨rfl, -⟩ := eat_eq_false_iff.mp heat
      exact ⟨[], rfl, .absent⟩
  complete := by
    intro used found rest h hends
    unfold optionalArguments
    cases h with
    | absent => rw [List.nil_append, eat_eq_false_iff.mpr ⟨rfl, hends⟩]
    | present hopening hitems hclosing =>
        rename_i opening closing ts items
        have heat : eat .parenOpen (opening :: (ts ++ [closing]) ++ rest) =
            (true, ts ++ closing :: rest) :=
          eat_eq_true_iff.mpr ⟨opening, by simp, hopening⟩
        rw [heat]
        simp only
        rw [arguments_complete hitems hclosing, List.nil_append, withVariants_foldl]

theorem isOptional_of_eat {b : Bool} (h : eat .question ts = (b, rest)) :
    ∃ used, ts = used ++ rest ∧ IsOptional used b := by
  cases b with
  | true =>
      obtain ⟨t, rfl, ht⟩ := eat_eq_true_iff.mp h
      exact ⟨[t], rfl, .present ht⟩
  | false =>
      obtain ⟨rfl, -⟩ := eat_eq_false_iff.mp h
      exact ⟨[], rfl, .absent⟩

theorem eat_of_isOptional {b : Bool} (h : IsOptional ts b) (hends : NoMark .question rest) :
    eat .question (ts ++ rest) = (b, rest) := by
  cases h with
  | absent => exact eat_eq_false_iff.mpr ⟨rfl, hends⟩
  | present ht => exact eat_eq_true_iff.mpr ⟨_, rfl, ht⟩

/-- A field is read as the grammar says, if neither arguments nor a question
mark follow it that would belong to it. -/
theorem recognizes_readField (stop : Position) :
    Recognizes (readField stop) IsField
      fun rest => NoMark .parenOpen rest ∧ NoMark .question rest where
  sound := by
    intro ts f rest h
    simp only [readField, Except.bind_eq_ok_iff, Prod.exists] at h
    obtain ⟨name, ts₁, h₁, _, ts₂, h₂, typeName, ts₃, h₃, found, ts₄, h₄, h⟩ := h
    obtain ⟨nameToken, rfl, haccept⟩ := expect_eq_ok_iff.mp h₁
    obtain ⟨hname, rfl⟩ := word_eq_some_iff.mp haccept
    obtain ⟨colon, rfl, hcolon⟩ := expectMark_eq_ok_iff.mp h₂
    obtain ⟨typeToken, rfl, haccept⟩ := expect_eq_ok_iff.mp h₃
    obtain ⟨htype, rfl⟩ := word_eq_some_iff.mp haccept
    obtain ⟨us, rfl, harguments⟩ := (recognizes_optionalArguments stop).sound h₄
    obtain ⟨rfl, rfl⟩ := Prod.mk.inj (Except.ok.inj h)
    obtain ⟨marks, hmarks, hoptional⟩ := isOptional_of_eat (Prod.eta (eat .question ts₄)).symm
    refine ⟨nameToken :: colon :: typeToken :: (us ++ marks), ?_,
      .field hname hcolon htype harguments hoptional⟩
    simp only [List.cons_append, List.append_assoc, ← hmarks]
  complete := by
    intro used f rest h hends
    cases h with
    | field hname hcolon htype harguments hoptional =>
        rename_i nameToken colon typeToken us marks found optional
        have hparen : NoMark .parenOpen (marks ++ rest) := by
          cases hoptional with
          | absent => exact hends.1
          | present ht => simp [NoMark, ht]
        simp only [readField, List.cons_append, List.append_assoc, expect_word hname,
          expectMark_mark hcolon, expect_word htype, Except.ok_bind,
          (recognizes_optionalArguments stop).complete harguments hparen,
          eat_of_isOptional hoptional hends.2]
        rfl

/-- Items that begin with words continue no item and end no list. -/
theorem noMark_of_isWord
    (h : ∃ t us, used = t :: us ∧ t.kind.isWord = true) : NoMark m (used ++ rest) := by
  obtain ⟨t, us, rfl, hword⟩ := h
  simp [NoMark, ne_mark_of_isWord hword]

theorem noMark_listed {phrase : Phrase α} {as : List α}
    (hword : ∀ {used a}, phrase used a → ∃ t us, used = t :: us ∧ t.kind.isWord = true)
    (hcomma : m ≠ .comma) (hclose : m ≠ .braceClose) (h : Listed phrase used as) :
    NoMark m (used ++ rest) := by
  have hhead : ∃ t us, used = t :: us ∧ t.kind ≠ .mark m := by
    apply head_listed h
    · intro t ht
      simpa [ht] using hcomma.symm
    · intro t ht
      simpa [ht] using hclose.symm
    · intro used a ha
      obtain ⟨t, us, rfl, ht⟩ := hword ha
      exact ⟨t, us, rfl, ne_mark_of_isWord ht m⟩
  obtain ⟨t, us, rfl, ht⟩ := hhead
  simpa [NoMark] using ht

theorem head_isField {f : Field} (h : IsField ts f) :
    ∃ t us, ts = t :: us ∧ t.kind.isWord = true := by
  cases h with
  | field hname _ _ _ _ => exact ⟨_, _, rfl, hname⟩

/-- The fields of a schema are read up to the brace that closes it, whatever
follows. -/
theorem recognizes_fields (stop : Position) :
    Recognizes (field stop).untilBrace (Listed IsField) fun _ => True := by
  apply recognizes_untilBrace (recognizes_readField stop)
  · intro used f rest h
    exact noMark_of_isWord (head_isField h)
  · intro used f rest h
    exact noMark_of_isWord (head_isField h)
  · intro used fields rest h
    exact ⟨noMark_listed head_isField (by simp) (by simp) h,
      noMark_listed head_isField (by simp) (by simp) h⟩

end Parser

end BlockLang
