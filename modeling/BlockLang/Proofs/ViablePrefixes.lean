import BlockLang.Proofs.BlockRecognition
import BlockLang.Proofs.ErrorPositions

/-! # Readers fail at the first token that cannot go on

A reader that fails has passed over tokens that can be completed to a phrase of its rule, and it
fails at the token behind them whatever follows that token. To go on from a part that is read to a
part that fails, one has to know how far ahead the first part looked: at one token, and at a second
one behind a comma. Here this is stated for readers at large, and proved for lists between braces
and for the fields of a schema.
-/

namespace BlockLang

namespace Grammar

variable {α β : Type} {phrase : Phrase α} {used : List Token}

/-- `[item]` -/
inductive AtMostOne (item : Phrase α) : Phrase (Option α)
  | none : AtMostOne item [] none
  | some {ts : List Token} {a : α} (h : item ts a) : AtMostOne item ts (some a)

def After (before : List Token) (phrase : Phrase α) : Phrase α :=
  fun ts a => phrase (before ++ ts) a

/-- Whether all tokens of certain kinds make a phrase. -/
def MadeOf (kinds : List Token.Kind) (phrase : Phrase α) : Prop :=
  ∀ ts : List Token, ts.map Token.kind = kinds → ∃ a, phrase ts a

theorem MadeOf.nil {a : α} (h : phrase [] a) : MadeOf [] phrase := by
  intro ts hts
  rw [List.map_eq_nil_iff.mp hts]
  exact ⟨a, h⟩

theorem MadeOf.cons {kind : Token.Kind} {kinds : List Token.Kind}
    (h : ∀ t, t.kind = kind → MadeOf kinds (After [t] phrase)) : MadeOf (kind :: kinds) phrase := by
  intro ts hts
  obtain ⟨t, us, rfl, ht, hus⟩ := List.map_eq_cons_iff.mp hts
  exact h t ht us hus

/-- Whether some tokens can be completed to a phrase, by whatever tokens of
certain kinds. -/
def Viable (phrase : Phrase α) (used : List Token) : Prop :=
  ∃ kinds, MadeOf kinds (After used phrase)

theorem MadeOf.viable {kinds : List Token.Kind} (h : MadeOf kinds phrase) : Viable phrase [] :=
  ⟨kinds, h⟩

/-- What is missing behind some tokens is what is missing behind these and
others before them. -/
theorem viable_after {before : List Token} :
    Viable (After before phrase) used ↔ Viable phrase (before ++ used) := by
  simp only [Viable, MadeOf, After, List.append_assoc]

theorem Viable.of_phrase {a : α} (h : phrase used a) : Viable phrase used := by
  refine ⟨[], .nil (a := a) ?_⟩
  rwa [After, List.append_nil]

/-- What can be completed to a part can be completed to the whole, if the part
can be, by the kinds of tokens that follow it. -/
theorem Viable.close {phrase' : Phrase β} (kinds : List Token.Kind)
    (hwhole : ∀ {ts a}, phrase ts a → MadeOf kinds (After ts phrase')) (h : Viable phrase used) :
    Viable phrase' used := by
  obtain ⟨kinds₁, hpart⟩ := h
  refine ⟨kinds₁ ++ kinds, ?_⟩
  intro more hmore
  obtain ⟨more₁, more₂, rfl, h₁, h₂⟩ := List.map_eq_append_iff.mp hmore
  obtain ⟨a, ha⟩ := hpart more₁ h₁
  obtain ⟨b, hb⟩ := hwhole ha more₂ h₂
  refine ⟨b, ?_⟩
  rwa [After, List.append_assoc] at hb

theorem Viable.mono {phrase' : Phrase β} (hwhole : ∀ {ts a}, phrase ts a → ∃ b, phrase' ts b)
    (h : Viable phrase used) : Viable phrase' used := by
  apply h.close []
  intro ts a ha
  obtain ⟨b, hb⟩ := hwhole ha
  refine .nil (a := b) ?_
  rwa [After, List.append_nil]

end Grammar

namespace Parser

open Grammar

variable {α β : Type} {stop : Position} {ts rest : List Token}

/-! ## What is ahead -/

variable {t : Token} {expected : Expectation}

theorem head?_append_cons (ht : t ∈ rest.head?) (used later : List Token) :
    (used ++ rest).head? = (used ++ t :: later).head? := by
  cases used with
  | nil => exact ht
  | cons u us => rfl

/-- What follows a token is not seen before the token is, unless the token is a
comma, behind which readers look one further. -/
theorem SameFront.of_token {used : List Token} (ht : t ∈ rest.head?)
    (hcomma : used = [] → NoMark .comma rest) (later : List Token) :
    SameFront (used ++ rest) (used ++ t :: later) where
  head := head?_append_cons ht used later
  second := by
    intro hmark
    cases used with
    | nil => exact absurd (hcomma rfl) hmark
    | cons u us => exact head?_append_cons ht us later

/-- Whether a reader takes phrases of a rule, and takes each of them again with
anything behind it that looks the same. -/
def Settles (read : Position → List Token → Outcome α) (phrase : Phrase α) : Prop :=
  ∀ ⦃stop ts a rest⦄, read stop ts = .ok (a, rest) → ∃ used, ts = used ++ rest ∧ phrase used a ∧
    ∀ stop' rest', SameFront rest rest' → read stop' (used ++ rest') = .ok (a, rest')

/-- A reader that looks no further ahead settles the phrases that it recognizes,
as what it used up is all it has seen. -/
theorem settles_of_transfers {read : Position → List Token → Outcome α} {phrase : Phrase α}
    {ends : List Token → Prop} (hread : Transfers read)
    (hphrase : ∀ stop, Recognizes (read stop) phrase ends) : Settles read phrase := by
  intro stop ts a rest h
  obtain ⟨used, rfl, hused⟩ := (hphrase stop).sound h
  obtain ⟨used', huses⟩ := hread h
  obtain rfl := List.append_cancel_right huses.split
  exact ⟨used, rfl, hused, huses.again⟩

/-! ## Where readers fail -/

/-- How a reader fails behind some tokens: these can be completed to a phrase,
and with the token that follows them it fails at this token, whatever comes
next. -/
structure Halts (read : Position → List Token → Outcome α) (phrase : Phrase β) (used : List Token)
    (expected : Expectation) (rest : List Token) : Prop where
  viable : Viable phrase used
  stuck : ∀ t ∈ rest.head?, ∀ stop later,
    read stop (used ++ t :: later) = .error (unexpected stop expected (t :: later))

/-- Whether a reader fails only at tokens that cannot go on. -/
def Detects (read : Position → List Token → Outcome α) (phrase : Phrase β) : Prop :=
  ∀ ⦃stop ts e⦄, read stop ts = .error e → ∃ used rest expected, ts = used ++ rest ∧
    e = unexpected stop expected rest ∧ Halts read phrase used expected rest

/-- A token is missed exactly where the next one is not accepted, and the error
names this one. -/
theorem expect_eq_error_iff {accept : Token → Option α} {e : ParseError} :
    expect stop expected accept ts = .error e ↔
      e = unexpected stop expected ts ∧ ∀ t ∈ ts.head?, accept t = none := by
  cases ts with
  | nil => simp [expect, eq_comm]
  | cons t later =>
      cases haccept : accept t with
      | none => simp [expect, haccept, eq_comm]
      | some a => simp [expect, haccept]

theorem expect_stuck {accept : Token → Option α} (h : accept t = none) (stop : Position)
    (later : List Token) :
    expect stop expected accept (t :: later) = .error (unexpected stop expected (t :: later)) := by
  simp only [expect, h]

theorem kind_of_mark {m : Mark} {u : Unit}
    (h : (if isMark m t then some () else none) = some u) : t.kind = .mark m := by
  by_contra hkind
  simp [isMark, hkind] at h

theorem isWord_of_name (h : t.kind = .name) : t.kind.isWord = true := by rw [h]; rfl

/-- Reading goes on behind a token, unless it fails at this token. -/
theorem detects_expect {γ : Type} {accept : Token → Option γ}
    {next : Position → γ × List Token → Except ParseError (α × List Token)} {phrase : Phrase β}
    (hviable : Viable phrase [])
    (hnext : ∀ {t c}, accept t = some c →
      Detects (fun stop ts => next stop (c, ts)) (After [t] phrase)) :
    Detects (fun stop ts =>
      (expect stop expected accept ts >>= next stop : Except ParseError (α × List Token)))
      phrase := by
  intro stop ts e h
  rcases Except.bind_eq_error_iff.mp h with hfirst | ⟨⟨c, later⟩, hread, hlater⟩
  · obtain ⟨rfl, hnone⟩ := expect_eq_error_iff.mp hfirst
    refine ⟨[], ts, expected, rfl, rfl, hviable, ?_⟩
    intro t ht stop later
    rw [List.nil_append, expect_stuck (hnone t ht), Except.error_bind]
  · obtain ⟨t, rfl, hc⟩ := expect_eq_ok_iff.mp hread
    obtain ⟨used, rest, expected', rfl, rfl, hhalts⟩ := hnext hc hlater
    refine ⟨[t] ++ used, rest, expected', rfl, rfl, viable_after.mp hhalts.viable, ?_⟩
    intro t' ht' stop later
    have htaken : expect stop expected accept (t :: (used ++ t' :: later)) =
        .ok (c, used ++ t' :: later) := expect_eq_ok_iff.mpr ⟨t, rfl, hc⟩
    rw [List.append_assoc, List.singleton_append, htaken, Except.ok_bind]
    exact hhalts.stuck t' ht' stop later

/-- Whether a reader fails only at tokens that cannot go on, and all tokens of
certain kinds make a phrase of its rule. -/
structure Completes (kinds : List Token.Kind) (read : Position → List Token → Outcome α)
    (phrase : Phrase β) : Prop where
  madeOf : MadeOf kinds phrase
  detects : Detects read phrase

section Completes

variable {γ δ : Type} {kinds : List Token.Kind} {phrase : Phrase β} {expected : Expectation}
  {next : Position → γ × List Token → Except ParseError (α × List Token)}

theorem completes_pure {a : α} {b : β} (h : phrase [] b) :
    Completes [] (fun _ ts => .ok (a, ts)) phrase := by
  refine ⟨.nil h, ?_⟩
  intro stop ts e h
  cases h

/-- Nothing fails behind the last part, so the part fails where the whole
does. -/
theorem completes_last {read : Position → List Token → Outcome γ} {part : Phrase δ}
    (hread : Completes kinds read part) (hwhole : ∀ {ts d}, part ts d → ∃ b, phrase ts b)
    (hnext : ∀ stop found e, next stop found ≠ .error e) :
    Completes kinds
      (fun stop ts => (read stop ts >>= next stop : Except ParseError (α × List Token)))
      phrase := by
  refine ⟨fun ts hts => hwhole (hread.madeOf ts hts).choose_spec, ?_⟩
  intro stop ts e h
  rcases Except.bind_eq_error_iff.mp h with hfirst | ⟨found, -, hlater⟩
  · obtain ⟨used, rest, expected, hts, he, hhalts⟩ := hread.detects hfirst
    refine ⟨used, rest, expected, hts, he, hhalts.viable.mono hwhole, ?_⟩
    intro t ht stop later
    rw [hhalts.stuck t ht stop later, Except.error_bind]
  · exact absurd hlater (hnext stop found e)

/-- Tokens of one kind are among those that go on, so a token of this kind
completes what it is missing in, with what follows. -/
theorem completes_expect {accept : Token → Option γ} {kind : Token.Kind}
    (hkind : ∀ t, t.kind = kind → ∃ c, accept t = some c)
    (hnext : ∀ {t c}, accept t = some c →
      Completes kinds (fun stop ts => next stop (c, ts)) (After [t] phrase)) :
    Completes (kind :: kinds) (fun stop ts =>
      (expect stop expected accept ts >>= next stop : Except ParseError (α × List Token)))
      phrase := by
  have hmade : MadeOf (kind :: kinds) phrase := .cons fun t ht => by
    obtain ⟨c, hc⟩ := hkind t ht
    exact (hnext hc).madeOf
  exact ⟨hmade, detects_expect hmade.viable fun hc => (hnext hc).detects⟩

end Completes

section Tokens

variable {kinds : List Token.Kind} {phrase : Phrase β} {expected : Expectation}
  {next : Position → String × List Token → Except ParseError (α × List Token)}

theorem completes_word (hnext : ∀ t : Token, t.kind.isWord = true →
      Completes kinds (fun stop ts => next stop (t.text, ts)) (After [t] phrase)) :
    Completes (.name :: kinds) (fun stop ts =>
      (expect stop expected word ts >>= next stop : Except ParseError (α × List Token)))
      phrase := by
  refine completes_expect (fun t ht => ⟨_, word_eq_some_iff.mpr ⟨isWord_of_name ht, rfl⟩⟩) ?_
  intro t c hc
  obtain ⟨hword, rfl⟩ := word_eq_some_iff.mp hc
  exact hnext t hword

theorem completes_string (hnext : ∀ t : Token, t.kind = .string →
      Completes kinds (fun stop ts => next stop (t.text, ts)) (After [t] phrase)) :
    Completes (.string :: kinds) (fun stop ts =>
      (expect stop expected string ts >>= next stop : Except ParseError (α × List Token)))
      phrase := by
  refine completes_expect (fun t ht => ⟨_, string_eq_some_iff.mpr ⟨ht, rfl⟩⟩) ?_
  intro t c hc
  obtain ⟨hstring, rfl⟩ := string_eq_some_iff.mp hc
  exact hnext t hstring

theorem completes_label (hnext : ∀ t : Token, IsLabel t →
      Completes kinds (fun stop ts => next stop (t.text, ts)) (After [t] phrase)) :
    Completes (.name :: kinds) (fun stop ts =>
      (expect stop expected wordOrString ts >>= next stop : Except ParseError (α × List Token)))
      phrase := by
  refine completes_expect
    (fun t ht => ⟨_, wordOrString_eq_some_iff.mpr ⟨.inl (isWord_of_name ht), rfl⟩⟩) ?_
  intro t c hc
  obtain ⟨hlabel, rfl⟩ := wordOrString_eq_some_iff.mp hc
  exact hnext t hlabel

theorem completes_mark {m : Mark}
    {next : Position → Unit × List Token → Except ParseError (α × List Token)}
    (hnext : ∀ t : Token, t.kind = .mark m →
      Completes kinds (fun stop ts => next stop ((), ts)) (After [t] phrase)) :
    Completes (.mark m :: kinds) (fun stop ts =>
      (expectMark stop m ts >>= next stop : Except ParseError (α × List Token))) phrase :=
  completes_expect (fun _ ht => ⟨(), if_pos (isMark_iff.mpr ht)⟩)
    fun hc => hnext _ (kind_of_mark hc)

end Tokens

/-! ## Lists between braces -/

theorem listed_nil {item : Phrase α} {brace : Token} (h : brace.kind = .mark .braceClose) :
    Listed item [brace] [] := by
  have hlisted : Listed item ([] ++ [brace]) [] := .close (by simp) h
  exact hlisted

theorem noMark_skipCommas (ts : List Token) : NoMark .comma (skipCommas ts) := by
  intro t ht hcomma
  have hnot := List.head?_dropWhile_not (isMark .comma) ts
  rw [skipCommas] at ht
  rw [Option.mem_def.mp ht] at hnot
  simp [isMark, hcomma] at hnot

/-- A list between braces fails where its first faulty item does, or behind its
items where no item begins. -/
theorem untilBrace_halts {item : Position → Rule α} {phrase : Phrase α}
    (hdetects : Detects (fun stop => (item stop).read) (AtMostOne phrase))
    (hsettles : Settles (fun stop => (item stop).read) phrase) {e : ParseError}
    (h : (item stop).untilBrace ts = .error e) :
    ∃ used rest expected, ts = used ++ rest ∧ e = unexpected stop expected rest ∧
      Halts (fun stop => (item stop).untilBrace) (Listed phrase) used expected rest ∧
        (used = [] → NoMark .comma rest) := by
  fun_induction (item stop).untilBrace ts with
  | case1 | case4 => cases h
  -- The item right behind the commas fails: a brace completes the list, with or without it.
  | case2 ts rest heat e' he =>
      obtain rfl := Except.error.inj h
      obtain ⟨commas, hts, hcommas⟩ := exists_commas ts
      have hcomma := noMark_skipCommas ts
      obtain ⟨hrest, hclose⟩ := eat_eq_false_iff.mp heat
      rw [hrest] at hts hcomma hclose
      obtain ⟨used, last, expected, rfl, rfl, hhalts⟩ := hdetects he
      refine ⟨commas ++ used, last, expected, by rw [hts, List.append_assoc], rfl, ⟨?_, ?_⟩, ?_⟩
      · refine viable_after.mp (hhalts.viable.close [.mark .braceClose] ?_)
        intro ts a ha
        refine .cons fun brace hbrace => ?_
        cases ha with
        | none => exact .nil (.close hcommas hbrace)
        | some hphrase => exact .nil (.cons hcommas hphrase (listed_nil hbrace))
      · intro t ht stop later
        have hfront := head?_append_cons ht used later
        have hskip := skipCommas_append hcommas ((noMark_congr hfront).mp hcomma)
        have hopen := eat_eq_false_iff.mpr ⟨rfl, (noMark_congr hfront).mp hclose⟩
        rw [untilBrace_eq, List.append_assoc, hskip, hopen]
        simp only [hhalts.stuck t ht stop later]
      · intro hnil
        obtain ⟨-, rfl⟩ := List.append_eq_nil_iff.mp hnil
        exact hcomma
  -- The item is read, and the failure is in the list behind it.
  | case3 ts rest heat a later ha hshorter e' he ih =>
      obtain rfl := Except.error.inj h
      obtain ⟨commas, hts, hcommas⟩ := exists_commas ts
      have hcomma := noMark_skipCommas ts
      obtain ⟨hrest, hclose⟩ := eat_eq_false_iff.mp heat
      rw [hrest] at hts hcomma hclose
      obtain ⟨used₁, rfl, hphrase, hagain⟩ := hsettles ha
      obtain ⟨used₂, last, expected, rfl, rfl, hhalts, hnext⟩ := ih he
      refine ⟨(commas ++ used₁) ++ used₂, last, expected, by rw [hts]; simp, rfl, ⟨?_, ?_⟩, ?_⟩
      · refine viable_after.mp (hhalts.viable.mono ?_)
        intro ts as has
        refine ⟨a :: as, ?_⟩
        rw [After, List.append_assoc]
        exact .cons hcommas hphrase has
      · intro t ht stop later
        have hfront := head?_append_cons ht (used₁ ++ used₂) later
        rw [List.append_assoc, List.append_assoc] at hfront
        have hskip := skipCommas_append hcommas ((noMark_congr hfront).mp hcomma)
        have hopen := eat_eq_false_iff.mpr ⟨rfl, (noMark_congr hfront).mp hclose⟩
        have hitem := hagain stop _ (SameFront.of_token ht hnext later)
        rw [untilBrace_eq, List.append_assoc, List.append_assoc, hskip, hopen]
        simp only [hitem, hhalts.stuck t ht stop later]
      · intro hnil
        obtain ⟨hnil, -⟩ := List.append_eq_nil_iff.mp hnil
        obtain ⟨-, rfl⟩ := List.append_eq_nil_iff.mp hnil
        have hprogress := (item stop).progress ha
        exact absurd hprogress (Nat.lt_irrefl _)

/-- A list between braces is completed by its closing brace, wherever it was
left between two items. -/
theorem completes_untilBrace {item : Position → Rule α} {phrase : Phrase α}
    (hdetects : Detects (fun stop => (item stop).read) (AtMostOne phrase))
    (hsettles : Settles (fun stop => (item stop).read) phrase) :
    Completes [.mark .braceClose] (fun stop => (item stop).untilBrace) (Listed phrase) := by
  refine ⟨.cons fun _ hbrace => .nil (listed_nil hbrace), ?_⟩
  intro stop ts e h
  obtain ⟨used, rest, expected, hts, he, hhalts, -⟩ := untilBrace_halts hdetects hsettles h
  exact ⟨used, rest, expected, hts, he, hhalts⟩

/-! ## Fields -/

/-- Arguments that go on behind an item fail where what follows does, with the
item in front. -/
theorem Halts.item {keyed keyed' : Arguments} {variants variants' : List String} {item : Item}
    {before used : List Token} (hitem : IsItem before item)
    (hnext : ∀ t ∈ rest.head?, ∀ stop later,
      arguments stop keyed variants (before ++ (used ++ t :: later)) =
        arguments stop keyed' variants' (used ++ t :: later))
    (h : Halts (fun stop => arguments stop keyed' variants') (Many IsItem) used expected rest) :
    Halts (fun stop => arguments stop keyed variants) (Many IsItem) (before ++ used) expected
      rest where
  viable := viable_after.mp (h.viable.mono fun hitems => ⟨_, .cons hitem hitems⟩)
  stuck := by
    intro t ht stop later
    rw [List.append_assoc, hnext t ht]
    exact h.stuck t ht stop later

/-- Behind the colon of a key only a value is missing, and a name will do. -/
theorem viable_key {key colon : Token} (hkey : key.kind.isWord = true)
    (hcolon : colon.kind = .mark .colon) : Viable (Many IsItem) [key, colon] := by
  refine ⟨[.name], .cons fun value hvalue => ?_⟩
  have hitem := IsItem.keyed hkey hcolon (.inl (isWord_of_name hvalue) : IsValue value)
  have hitems := Many.cons hitem .nil
  exact .nil hitems

/-- Arguments fail at a token that is no argument, or behind a key where its
value is missing. -/
theorem detects_arguments (keyed : Arguments) (variants : List String) :
    Detects (fun stop => arguments stop keyed variants) (Many IsItem) := by
  intro stop ts e h
  simp only at h
  fun_induction arguments stop keyed variants ts with
  | case1 keyed variants =>
      obtain rfl := Except.error.inj h
      exact ⟨[], [], _, rfl, rfl, .of_phrase .nil, by simp⟩
  | case2 => cases h
  | case3 keyed variants t later hclose hmark ih =>
      obtain ⟨used, rest, expected, rfl, rfl, hhalts⟩ := ih h
      have hitem := IsItem.separator (by simpa only [isMark_iff] using hmark)
      refine ⟨[t] ++ used, rest, expected, rfl, rfl, hhalts.item hitem ?_⟩
      intro t' _ stop later
      rw [List.singleton_append, arguments.eq_def]
      simp only [if_neg hclose, if_pos hmark]
  | case4 keyed variants t later hclose hmark hkind ih =>
      obtain ⟨used, rest, expected, rfl, rfl, hhalts⟩ := ih h
      refine ⟨[t] ++ used, rest, expected, rfl, rfl, hhalts.item (.variant (.inr hkind)) ?_⟩
      intro t' _ stop later
      rw [List.singleton_append, arguments.eq_def]
      simp only [if_neg hclose, if_neg hmark, if_pos hkind]
  | case5 keyed variants t hclose hmark hkind hword =>
      obtain rfl := Except.error.inj h
      have hitem : IsItem [t] _ := .variant (.inl hword)
      exact ⟨[t], [], _, rfl, rfl, .of_phrase (.cons hitem .nil), by simp⟩
  | case6 keyed variants t hclose hmark hkind hword colon hcolon =>
      obtain rfl := Except.error.inj h
      exact ⟨[t, colon], [], _, rfl, rfl, viable_key hword (isMark_iff.mp hcolon), by simp⟩
  | case7 keyed variants t hclose hmark hkind hword colon hcolon value later hvalue ih =>
      obtain ⟨used, rest, expected, rfl, rfl, hhalts⟩ := ih h
      have hitem := IsItem.keyed hword (isMark_iff.mp hcolon) (isArgumentValue_iff.mp hvalue)
      refine ⟨[t, colon, value] ++ used, rest, expected, rfl, rfl, hhalts.item hitem ?_⟩
      intro t' _ stop later
      rw [List.cons_append, List.cons_append, List.singleton_append, arguments.eq_def]
      simp only [if_neg hclose, if_neg hmark, if_neg hkind, if_pos hword, if_pos hcolon,
        if_pos hvalue]
  | case8 keyed variants t hclose hmark hkind hword colon hcolon value later hvalue =>
      obtain rfl := Except.error.inj h
      refine ⟨[t, colon], value :: later, _, rfl, rfl, viable_key hword (isMark_iff.mp hcolon), ?_⟩
      intro value' hvalue' stop later
      obtain rfl := Option.some.inj hvalue'
      rw [List.cons_append, List.singleton_append, arguments.eq_def]
      simp only [if_neg hclose, if_neg hmark, if_neg hkind, if_pos hword, if_pos hcolon,
        if_neg hvalue]
  | case9 keyed variants t hclose hmark hkind hword colon later hcolon ih =>
      obtain ⟨used, rest, expected, hsplit, rfl, hhalts⟩ := ih h
      refine ⟨[t] ++ used, rest, expected, by rw [hsplit]; rfl, rfl,
        hhalts.item (.variant (.inl hword)) ?_⟩
      intro t' ht' stop later'
      -- The token behind the word is the same, so the word is no key here either.
      have hhead := head?_append_cons ht' used later'
      rw [← hsplit] at hhead
      obtain ⟨later₂, hlater⟩ : ∃ later₂, used ++ t' :: later' = colon :: later₂ := by
        rw [List.head?_cons] at hhead
        exact List.head?_eq_some_iff.mp hhead.symm
      rw [hlater, List.singleton_append, arguments.eq_def]
      simp only [if_neg hclose, if_neg hmark, if_neg hkind, if_pos hword, if_neg hcolon]
  | case10 keyed variants t later hclose hmark hkind hword =>
      obtain rfl := Except.error.inj h
      refine ⟨[], t :: later, _, rfl, rfl, .of_phrase .nil, ?_⟩
      intro t' ht' stop later
      obtain rfl := Option.some.inj ht'
      rw [List.nil_append, arguments.eq_def]
      simp only [if_neg hclose, if_neg hmark, if_neg hkind, if_neg hword]

theorem detects_optionalArguments : Detects optionalArguments IsArguments := by
  intro stop ts e h
  unfold optionalArguments at h
  split at h
  next later heat =>
    obtain ⟨opening, rfl, hopening⟩ := eat_eq_true_iff.mp heat
    obtain ⟨used, rest, expected, rfl, rfl, hhalts⟩ := detects_arguments [] [] h
    refine ⟨[opening] ++ used, rest, expected, rfl, rfl, ?_, ?_⟩
    · refine viable_after.mp (hhalts.viable.close [.mark .parenClose] ?_)
      intro ts items hitems
      exact .cons fun closing hclosing => .nil (.present hopening hitems hclosing)
    · intro t ht stop later
      rw [List.append_assoc, List.singleton_append, optionalArguments,
        eat_eq_true_iff.mpr ⟨opening, rfl, hopening⟩]
      exact hhalts.stuck t ht stop later
  next => cases h

theorem settles_readField : Settles readField IsField :=
  settles_of_transfers transfers_readField recognizes_readField

/-- A field fails at the first token with which no field goes on. -/
theorem detects_readField : Detects readField (AtMostOne IsField) := by
  refine detects_expect (.of_phrase .none) fun {name _} hname => ?_
  have hname := (word_eq_some_iff.mp hname).1
  apply Completes.detects
  apply completes_mark
  intro colon hcolon
  apply completes_word
  intro typeName htype
  apply completes_last ⟨.nil .absent, detects_optionalArguments⟩
  · intro ts found hfound
    have hfield := IsField.field hname hcolon htype hfound .absent
    rw [List.append_nil] at hfield
    exact ⟨_, .some hfield⟩
  · intro stop found e h
    cases h

theorem completes_fields :
    Completes [.mark .braceClose] (fun stop => (field stop).untilBrace) (Listed IsField) :=
  completes_untilBrace detects_readField settles_readField

end Parser

end BlockLang
