import BlockLang.Proofs.Recognition

/-! # Blocks are read as the grammar says

The readers of routes, of migrations and of whole blocks accept exactly the grammar. A comma behind
a pipeline without brackets may belong to it or not; the token after the comma decides. A block
ends with its own last token, so it is read whatever follows it.
-/

namespace BlockLang

namespace Parser

open Grammar

variable {α : Type} {stop : Position} {ts rest : List Token}

/-! ## Routes -/

/-- A step is read as the grammar says. -/
theorem recognizes_readStep (stop : Position) :
    Recognizes (readStep stop) IsStep (NoMark .parenOpen) where
  sound := by
    intro ts s rest h
    simp only [readStep, Except.bind_eq_ok_iff, Prod.exists] at h
    obtain ⟨name, ts₁, h₁, h⟩ := h
    obtain ⟨t, rfl, haccept⟩ := expect_eq_ok_iff.mp h₁
    obtain ⟨hword, rfl⟩ := word_eq_some_iff.mp haccept
    -- Only a word spelled `validate` looks behind itself for a parenthesis.
    split_ifs at h with hauth hvalidate
    · obtain ⟨rfl, rfl⟩ := Prod.mk.inj (Except.ok.inj h)
      exact ⟨[t], rfl, .auth hword hauth⟩
    · split at h
      next later heat =>
        obtain ⟨opening, rfl, hopening⟩ := eat_eq_true_iff.mp heat
        simp only [Except.bind_eq_ok_iff, Prod.exists] at h
        obtain ⟨schema, ts₂, h₂, _, ts₃, h₃, h⟩ := h
        obtain ⟨schemaToken, rfl, haccept⟩ := expect_eq_ok_iff.mp h₂
        obtain ⟨hschema, rfl⟩ := word_eq_some_iff.mp haccept
        obtain ⟨closing, rfl, hclosing⟩ := expectMark_eq_ok_iff.mp h₃
        obtain ⟨rfl, rfl⟩ := Prod.mk.inj (Except.ok.inj h)
        exact ⟨[t, opening, schemaToken, closing], rfl,
          .validate hword hvalidate hopening hschema hclosing⟩
      next later heat =>
        obtain ⟨rfl, -⟩ := eat_eq_false_iff.mp heat
        obtain ⟨rfl, rfl⟩ := Prod.mk.inj (Except.ok.inj h)
        exact ⟨[t], rfl, .action hword hauth⟩
    · obtain ⟨rfl, rfl⟩ := Prod.mk.inj (Except.ok.inj h)
      exact ⟨[t], rfl, .action hword hauth⟩
  complete := by
    intro used s rest h hends
    cases h with
    | auth hword htext =>
        simp only [readStep, List.singleton_append, expect_word hword, Except.ok_bind, if_pos htext]
        rfl
    | action hword htext =>
        simp only [readStep, List.singleton_append, expect_word hword, Except.ok_bind, if_neg htext]
        split_ifs
        · rw [eat_eq_false_iff.mpr ⟨rfl, hends⟩]
          rfl
        · rfl
    | validate hword htext hopening hschema hclosing =>
        have hauth : ¬ "validate" = "auth" := by decide
        simp only [readStep, List.cons_append, List.nil_append, expect_word hword, Except.ok_bind,
          htext, if_neg hauth, if_true, eat_eq_true_iff.mpr ⟨_, rfl, hopening⟩, expect_word hschema,
          expectMark_mark hclosing]
        rfl

theorem head_isStep {s : Step} (h : IsStep ts s) :
    ∃ t us, ts = t :: us ∧ t.kind.isWord = true := by
  cases h with
  | auth hword _ | action hword _ | validate hword _ _ _ _ => exact ⟨_, _, rfl, hword⟩

variable {t : Token} {bracketed : Bool} {steps : List Step} {later : Tokens} {tree : Tree}

theorem startsStep_cons :
    startsStep (t :: ts) = true ↔ t.kind.isWord = true ∧ ∀ v, t.kind ≠ .verb v := by
  cases hkind : t.kind <;> simp [startsStep, Token.Kind.isWord, hkind]

/-- One step of reading a pipeline. -/
theorem moreSteps_eq (stop : Position) (bracketed : Bool) (ts : List Token) :
    moreSteps stop bracketed ts =
      match eat .comma ts with
      | (false, rest) => .ok ([], rest)
      | (true, rest) =>
        if !bracketed && !startsStep rest then .ok ([], ts)
        else if bracketed && (eat .bracketClose rest).1 then .ok ([], rest)
        else
          match readStep stop rest with
          | .error e => .error e
          | .ok (s, later) =>
            match moreSteps stop bracketed later with
            | .error e => .error e
            | .ok (more, last) => .ok (s :: more, last) := by
  rw [moreSteps]
  split
  next rest heat => simp only [heat]
  next rest heat =>
    simp only [heat]
    split_ifs
    · rfl
    · rfl
    · split
      next e hstep => simp only [hstep]
      next s later hstep =>
        cases hmore : moreSteps stop bracketed later <;> simp only [hstep, hmore]

theorem moreSteps_step {s : Step} {later last : List Token} (h : IsLaterStep bracketed ts s)
    (hends : NoMark .parenOpen later)
    (hmore : moreSteps stop bracketed later = .ok (steps, last)) :
    moreSteps stop bracketed (ts ++ later) = .ok (s :: steps, last) := by
  obtain ⟨hcomma, hstep, hverb⟩ := h
  rename_i comma ts
  obtain ⟨t, us, rfl, hword⟩ := head_isStep hstep
  have hclose : NoMark .bracketClose (t :: us ++ later) := noMark_of_isWord ⟨t, us, rfl, hword⟩
  have hstarts : (!bracketed && !startsStep (t :: us ++ later)) = false := by
    cases bracketed with
    | true => rfl
    | false => simpa using startsStep_cons.mpr ⟨hword, hverb rfl t rfl⟩
  rw [moreSteps_eq, List.cons_append, eat_eq_true_iff.mpr ⟨comma, rfl, hcomma⟩]
  simp only [hstarts, eat_eq_false_iff.mpr ⟨rfl, hclose⟩, Bool.and_false, Bool.false_eq_true,
    if_false, (recognizes_readStep stop).complete hstep hends, hmore]

theorem noMark_laterSteps (h : Many (IsLaterStep bracketed) ts steps)
    (hends : NoMark .parenOpen rest) :
    NoMark .parenOpen (ts ++ rest) := by
  cases h with
  | nil => exact hends
  | cons hnext _ =>
      obtain ⟨hcomma, -, -⟩ := hnext
      simp [NoMark, hcomma]

theorem moreSteps_complete {tail last : List Token} (h : Many (IsLaterStep bracketed) ts steps)
    (hends : NoMark .parenOpen tail)
    (htail : moreSteps stop bracketed tail = .ok ([], last)) :
    moreSteps stop bracketed (ts ++ tail) = .ok (steps, last) := by
  induction h with
  | nil => exact htail
  | cons hstep hmore ih =>
      rw [List.append_assoc]
      exact moreSteps_step hstep (noMark_laterSteps hmore hends) ih

/-- What is read behind a first step are further steps, and perhaps one comma
more inside of brackets. -/
theorem moreSteps_sound (h : moreSteps stop bracketed ts = .ok (steps, rest)) :
    ∃ used commas, ts = used ++ (commas ++ rest) ∧ Many (IsLaterStep bracketed) used steps ∧
      IsOptionalComma commas ∧ (bracketed = false → commas = []) := by
  fun_induction moreSteps stop bracketed ts generalizing steps rest with
  | case1 ts later heat =>
      obtain ⟨rfl, rfl⟩ := Prod.mk.inj (Except.ok.inj h)
      obtain ⟨rfl, -⟩ := eat_eq_false_iff.mp heat
      exact ⟨[], [], rfl, .nil, .inl rfl, fun _ => rfl⟩
  | case2 ts later heat =>
      obtain ⟨rfl, rfl⟩ := Prod.mk.inj (Except.ok.inj h)
      exact ⟨[], [], rfl, .nil, .inl rfl, fun _ => rfl⟩
  -- A comma before the closing bracket is eaten with no step behind it.
  | case3 ts later heat _ hclose =>
      obtain ⟨rfl, rfl⟩ := Prod.mk.inj (Except.ok.inj h)
      obtain ⟨comma, rfl, hcomma⟩ := eat_eq_true_iff.mp heat
      refine ⟨[], [comma], rfl, .nil, .inr ⟨comma, rfl, hcomma⟩, ?_⟩
      rintro rfl
      simp at hclose
  | case4 | case5 => cases h
  | case6 ts later heat hstarts _ s after hstep _ more last hmore ih =>
      obtain ⟨rfl, rfl⟩ := Prod.mk.inj (Except.ok.inj h)
      obtain ⟨comma, rfl, hcomma⟩ := eat_eq_true_iff.mp heat
      obtain ⟨used, rfl, hphrase⟩ := (recognizes_readStep stop).sound hstep
      obtain ⟨others, commas, rfl, hmany, hcommas, hplain⟩ := ih hmore
      refine ⟨(comma :: used) ++ others, commas, by simp, .cons ⟨hcomma, hphrase, ?_⟩ hmany,
        hcommas, hplain⟩
      rintro rfl t ht
      obtain ⟨t, us, rfl, -⟩ := head_isStep hphrase
      cases ht
      have hstarts : startsStep (t :: (us ++ (others ++ (commas ++ last)))) = true := by
        simpa using hstarts
      exact (startsStep_cons.mp hstarts).2

/-- Whether tokens continue no pipeline without brackets: neither a parenthesis
nor a further step follows. -/
def EndsPipeline (ts : List Token) : Prop :=
  NoMark .parenOpen ts ∧
    ∀ comma rest, ts = comma :: rest → comma.kind = .mark .comma → startsStep rest = false

theorem moreSteps_of_ends (h : EndsPipeline ts) : moreSteps stop false ts = .ok ([], ts) := by
  rw [moreSteps_eq]
  rcases heat : eat .comma ts with ⟨b, rest⟩
  cases b with
  | false =>
      obtain ⟨rfl, -⟩ := eat_eq_false_iff.mp heat
      rfl
  | true =>
      obtain ⟨comma, rfl, hcomma⟩ := eat_eq_true_iff.mp heat
      simp [h.2 comma rest rfl hcomma]

theorem moreSteps_of_close {commas : List Token} {closing : Token}
    (hcommas : IsOptionalComma commas) (hclosing : closing.kind = .mark .bracketClose) :
    moreSteps stop true (commas ++ closing :: rest) = .ok ([], closing :: rest) := by
  rw [moreSteps_eq]
  rcases hcommas with rfl | ⟨comma, rfl, hcomma⟩
  · have hnot : NoMark .comma (closing :: rest) := by simp [NoMark, hclosing]
    rw [List.nil_append, eat_eq_false_iff.mpr ⟨rfl, hnot⟩]
  · rw [List.singleton_append, eat_eq_true_iff.mpr ⟨comma, rfl, hcomma⟩]
    simp [eat_eq_true_iff.mpr ⟨closing, rfl, hclosing⟩]

/-- A route is read as the grammar says, in both forms of its pipeline. -/
theorem recognizes_readRoute (stop : Position) :
    Recognizes (readRoute stop) IsRoute EndsPipeline where
  sound := by
    intro ts r rest h
    simp only [readRoute, Except.bind_eq_ok_iff, Prod.exists] at h
    obtain ⟨v, line, ts₁, h₁, path, ts₂, h₂, _, ts₃, h₃, first, ts₅, h₅, more, ts₆, h₆, h⟩ := h
    obtain ⟨verbToken, rfl, haccept⟩ := expect_eq_ok_iff.mp h₁
    obtain ⟨hverb, rfl⟩ := verb_eq_some_iff.mp haccept
    obtain ⟨pathToken, rfl, haccept⟩ := expect_eq_ok_iff.mp h₂
    obtain ⟨hpath, rfl⟩ := string_eq_some_iff.mp haccept
    obtain ⟨arrow, rfl, harrow⟩ := expectMark_eq_ok_iff.mp h₃
    obtain ⟨us, hus, hfirst⟩ := (recognizes_readStep stop).sound h₅
    obtain ⟨others, commas, rfl, hmore, hcommas, hplain⟩ := moreSteps_sound h₆
    rcases heat : eat .bracketOpen ts₃ with ⟨bracketed, ts₄⟩
    rw [heat] at h hus hmore hplain
    cases bracketed with
    | true =>
        obtain ⟨opening, rfl, hopening⟩ := eat_eq_true_iff.mp heat
        simp only [if_true, Except.bind_eq_ok_iff, Prod.exists] at h
        obtain ⟨_, ts₇, h₇, h⟩ := h
        obtain ⟨closing, rfl, hclosing⟩ := expectMark_eq_ok_iff.mp h₇
        obtain ⟨rfl, rfl⟩ := Prod.mk.inj (Except.ok.inj h)
        have hpipeline := IsPipeline.bracketed hopening hfirst hmore hcommas hclosing
        refine ⟨_, ?_, .route hverb hpath harrow hpipeline⟩
        simp only at hus
        simp [hus]
    | false =>
        obtain ⟨rfl, -⟩ := eat_eq_false_iff.mp heat
        obtain rfl := hplain rfl
        obtain ⟨rfl, rfl⟩ := Prod.mk.inj (Except.ok.inj h)
        refine ⟨_, ?_, .route hverb hpath harrow (.plain hfirst hmore)⟩
        simp only at hus
        simp [hus]
  complete := by
    intro used r rest h hends
    obtain ⟨hverb, hpath, harrow, hpipeline⟩ := h
    rename_i verbToken pathToken arrow v ts pipeline
    have hv : ∀ later, expect stop .verbOrClose verb (verbToken :: later) =
        .ok ((v, verbToken.position.line), later) :=
      fun later => expect_eq_ok_iff.mpr ⟨verbToken, rfl, verb_eq_some_iff.mpr ⟨hverb, rfl⟩⟩
    cases hpipeline with
    | plain hfirst hmore =>
        rename_i ts us s steps
        -- A step starts with a word, so no bracket is eaten before a plain pipeline.
        have hnot : NoMark .bracketOpen (ts ++ (us ++ rest)) :=
          noMark_of_isWord (head_isStep hfirst)
        have hparen : NoMark .parenOpen (us ++ rest) := noMark_laterSteps hmore hends.1
        simp only [readRoute, List.cons_append, List.append_assoc, hv, expect_string hpath,
          expectMark_mark harrow, Except.ok_bind, eat_eq_false_iff.mpr ⟨rfl, hnot⟩,
          (recognizes_readStep stop).complete hfirst hparen,
          moreSteps_complete hmore hends.1 (moreSteps_of_ends hends)]
        rfl
    | bracketed hopening hfirst hmore hcommas hclosing =>
        rename_i opening closing ts us commas s steps
        have hparen' : NoMark .parenOpen (commas ++ closing :: rest) := by
          rcases hcommas with rfl | ⟨comma, rfl, hcomma⟩
          · simp [NoMark, hclosing]
          · simp [NoMark, hcomma]
        have hparen := noMark_laterSteps hmore hparen'
        simp only [readRoute, List.cons_append, List.append_assoc, List.nil_append, hv,
          expect_string hpath, expectMark_mark harrow, Except.ok_bind,
          eat_eq_true_iff.mpr ⟨opening, rfl, hopening⟩,
          (recognizes_readStep stop).complete hfirst hparen,
          moreSteps_complete hmore hparen' (moreSteps_of_close hcommas hclosing), if_true,
          expectMark_mark hclosing]
        rfl

theorem head_isRoute {r : Route} (h : IsRoute ts r) :
    ∃ t us, ts = t :: us ∧ ∃ v, t.kind = .verb v := by
  cases h with
  | route hverb _ _ _ => exact ⟨_, _, rfl, _, hverb⟩

theorem head_isRoute_isWord {r : Route} (h : IsRoute ts r) :
    ∃ t us, ts = t :: us ∧ t.kind.isWord = true := by
  obtain ⟨t, us, rfl, v, hv⟩ := head_isRoute h
  exact ⟨t, us, rfl, by simp [hv, Token.Kind.isWord]⟩

/-- What is left of a list between braces without a comma in front is such a
list again. -/
theorem listed_of_comma {phrase : Phrase α} {comma : Token} {used : List Token} {as : List α}
    (h : Listed phrase used as) (hused : used = comma :: ts) (hcomma : comma.kind = .mark .comma)
    (hword : ∀ {used a}, phrase used a → ∃ t us, used = t :: us ∧ t.kind.isWord = true) :
    Listed phrase ts as := by
  cases h with
  | close hcommas hbrace =>
      rename_i commas brace
      cases commas with
      | nil =>
          obtain ⟨rfl, -⟩ := List.cons.inj hused
          rw [hcomma] at hbrace
          cases hbrace
      | cons first commas =>
          obtain ⟨rfl, rfl⟩ := List.cons.inj hused
          exact .close (fun t ht => hcommas t (List.mem_cons_of_mem _ ht)) hbrace
  | cons hcommas hphrase hrest =>
      rename_i commas used others a as
      cases commas with
      | nil =>
          obtain ⟨t, us, rfl, ht⟩ := hword hphrase
          obtain ⟨rfl, -⟩ := List.cons.inj hused
          exact absurd hcomma (ne_mark_of_isWord ht .comma)
      | cons first commas =>
          obtain ⟨rfl, rfl⟩ := List.cons.inj hused
          exact .cons (fun t ht => hcommas t (List.mem_cons_of_mem _ ht)) hphrase hrest

/-- No route begins like a step: a verb in front of a path ends the pipeline
before it. -/
theorem startsStep_listed {routes : List Route} (h : Listed IsRoute ts routes) :
    startsStep (ts ++ rest) = false := by
  have hhead : ∃ t us, ts = t :: us ∧ ∀ later, startsStep (t :: later) = false := by
    apply head_listed h
    · intro t ht later
      simp [startsStep, ht]
    · intro t ht later
      simp [startsStep, ht]
    · intro used r hr
      obtain ⟨t, us, rfl, v, hv⟩ := head_isRoute hr
      exact ⟨t, us, rfl, fun later => by simp [startsStep, hv]⟩
  obtain ⟨t, us, rfl, ht⟩ := hhead
  exact ht _

/-- The routes of a block are read up to the brace that closes it, whatever
follows. -/
theorem recognizes_entries (stop : Position) :
    Recognizes (route stop).untilBrace (Listed IsRoute) fun _ => True := by
  apply recognizes_untilBrace (recognizes_readRoute stop)
  · intro used r rest h
    exact noMark_of_isWord (head_isRoute_isWord h)
  · intro used r rest h
    exact noMark_of_isWord (head_isRoute_isWord h)
  · intro used routes rest h
    refine ⟨noMark_listed head_isRoute_isWord (by simp) (by simp) h, ?_⟩
    -- A comma behind an entry is followed by the next entry, whose verb starts no step.
    intro comma later hlater hcomma
    obtain ⟨first, us, rfl, -⟩ := head_listed (P := fun _ => True) h (fun _ _ => trivial)
      (fun _ _ => trivial) fun hr => (head_isRoute hr).imp fun _ => .imp fun _ => .imp_right
        fun _ => trivial
    obtain ⟨rfl, rfl⟩ := List.cons.inj hlater
    exact startsStep_listed (listed_of_comma h rfl hcomma head_isRoute_isWord)

/-! ## Migrations -/

def OperationWord.text : OperationWord → String
  | .addColumn => "addColumn"
  | .dropColumn => "dropColumn"
  | .createTable => "createTable"
  | .dropTable => "dropTable"

theorem ofWord?_eq_some_iff {s : String} {k : OperationWord} :
    OperationWord.ofWord? s = some k ↔ s = k.text := by
  constructor
  · intro h
    unfold OperationWord.ofWord? at h
    split_ifs at h with h₁ h₂ h₃ h₄
    all_goals
      cases h
      assumption
  · rintro rfl
    cases k <;> decide

theorem operationWord_eq_some_iff {k : OperationWord} :
    (word t >>= OperationWord.ofWord?) = some k ↔ IsKeyword k.text t := by
  simp [IsKeyword, word_eq_some_iff, ofWord?_eq_some_iff, Option.bind_eq_some_iff]

/-- An operation is read as the grammar says, whatever follows: its word tells
how many tokens it has. -/
theorem recognizes_readOperation (stop : Position) :
    Recognizes (readOperation stop) IsOperation fun _ => True where
  sound := by
    intro ts op rest h
    simp only [readOperation, Except.bind_eq_ok_iff, Prod.exists] at h
    obtain ⟨kind, ts₁, h₁, table, ts₂, h₂, h⟩ := h
    obtain ⟨t, rfl, haccept⟩ := expect_eq_ok_iff.mp h₁
    have ht := operationWord_eq_some_iff.mp haccept
    obtain ⟨tableToken, rfl, haccept⟩ := expect_eq_ok_iff.mp h₂
    obtain ⟨htable, rfl⟩ := string_eq_some_iff.mp haccept
    cases kind with
    | addColumn =>
        simp only [Except.bind_eq_ok_iff, Prod.exists] at h
        obtain ⟨column, ts₃, h₃, typeName, ts₄, h₄, h⟩ := h
        obtain ⟨columnToken, rfl, haccept⟩ := expect_eq_ok_iff.mp h₃
        obtain ⟨hcolumn, rfl⟩ := wordOrString_eq_some_iff.mp haccept
        obtain ⟨typeToken, rfl, haccept⟩ := expect_eq_ok_iff.mp h₄
        obtain ⟨htype, rfl⟩ := word_eq_some_iff.mp haccept
        obtain ⟨rfl, rfl⟩ := Prod.mk.inj (Except.ok.inj h)
        exact ⟨[t, tableToken, columnToken, typeToken], rfl, .addColumn ht htable hcolumn htype⟩
    | dropColumn =>
        simp only [Except.bind_eq_ok_iff, Prod.exists] at h
        obtain ⟨column, ts₃, h₃, h⟩ := h
        obtain ⟨columnToken, rfl, haccept⟩ := expect_eq_ok_iff.mp h₃
        obtain ⟨hcolumn, rfl⟩ := wordOrString_eq_some_iff.mp haccept
        obtain ⟨rfl, rfl⟩ := Prod.mk.inj (Except.ok.inj h)
        exact ⟨[t, tableToken, columnToken], rfl, .dropColumn ht htable hcolumn⟩
    | createTable =>
        obtain ⟨rfl, rfl⟩ := Prod.mk.inj (Except.ok.inj h)
        exact ⟨[t, tableToken], rfl, .createTable ht htable⟩
    | dropTable =>
        obtain ⟨rfl, rfl⟩ := Prod.mk.inj (Except.ok.inj h)
        exact ⟨[t, tableToken], rfl, .dropTable ht htable⟩
  complete := by
    intro used op rest h _
    have hkind : ∀ {t later} {k : OperationWord}, IsKeyword k.text t →
        expect stop .operation (fun t => word t >>= OperationWord.ofWord?) (t :: later) =
          .ok (k, later) :=
      fun ht => expect_eq_ok_iff.mpr ⟨_, rfl, operationWord_eq_some_iff.mpr ht⟩
    cases h with
    | addColumn ht htable hcolumn htypeName =>
        simp only [readOperation, List.cons_append, List.nil_append,
          hkind (k := .addColumn) ht, expect_string htable, expect_label hcolumn,
          expect_word htypeName, Except.ok_bind]
        rfl
    | dropColumn ht htable hcolumn =>
        simp only [readOperation, List.cons_append, List.nil_append,
          hkind (k := .dropColumn) ht, expect_string htable, expect_label hcolumn, Except.ok_bind]
        rfl
    | createTable ht htable =>
        simp only [readOperation, List.cons_append, List.nil_append,
          hkind (k := .createTable) ht, expect_string htable, Except.ok_bind]
        rfl
    | dropTable ht htable =>
        simp only [readOperation, List.cons_append, List.nil_append,
          hkind (k := .dropTable) ht, expect_string htable, Except.ok_bind]
        rfl

theorem head_isOperation {op : Operation} (h : IsOperation ts op) :
    ∃ t us, ts = t :: us ∧ t.kind.isWord = true := by
  cases h with
  | addColumn ht _ _ _ | dropColumn ht _ _ | createTable ht _ | dropTable ht _ =>
      exact ⟨_, _, rfl, ht.1⟩

theorem recognizes_operations (stop : Position) :
    Recognizes (operation stop).untilBrace (Listed IsOperation) fun _ => True := by
  apply recognizes_untilBrace (recognizes_readOperation stop)
  · intro used op rest h
    exact noMark_of_isWord (head_isOperation h)
  · intro used op rest h
    exact noMark_of_isWord (head_isOperation h)
  · intros
    trivial

/-! ## Blocks -/

/-- Whether a token is the keyword of a block whose rule is in the grammar; the
body of an action is in another language. -/
def OpensBlock (t : Token) : Prop :=
  t.kind = .keyword .data ∨ t.kind = .keyword .route ∨ t.kind = .keyword .migration ∨
    t.kind = .keyword .importing

theorem lift_eq_ok_iff {ts : Tokens} {toTree : α → Tree} {outcome : Outcome α} :
    lift ts toTree outcome = .ok (tree, later) ↔
      ∃ a items, outcome = .ok (a, items) ∧ toTree a = tree ∧ later = { ts with items } := by
  unfold lift
  split <;> simp_all [eq_comm]

theorem skipLabel_eq (ts : List Token) :
    ∃ labels, ts = labels ++ skipLabel ts ∧
      (labels = [] ∨ ∃ label, labels = [label] ∧ IsLabel label) := by
  cases ts with
  | nil => exact ⟨[], rfl, .inl rfl⟩
  | cons t rest =>
      simp only [skipLabel]
      split_ifs with h
      · obtain ⟨s, hs⟩ := Option.isSome_iff_exists.mp h
        exact ⟨[t], rfl, .inr ⟨t, rfl, (wordOrString_eq_some_iff.mp hs).1⟩⟩
      · exact ⟨[], rfl, .inl rfl⟩

theorem skipLabel_append {labels : List Token} {opening : Token}
    (hlabels : labels = [] ∨ ∃ label, labels = [label] ∧ IsLabel label)
    (hopening : opening.kind = .mark .braceOpen) :
    skipLabel (labels ++ opening :: rest) = opening :: rest := by
  rcases hlabels with rfl | ⟨label, rfl, hlabel⟩
  · simp [skipLabel, wordOrString, word, string, hopening, Token.Kind.isWord]
  · simp [skipLabel, wordOrString_eq_some_iff.mpr ⟨hlabel, rfl⟩]

/-- What is read as a block is one of the grammar, and nothing but its tokens is
used up. -/
theorem isBlock_of_block {source : List UInt8} {ts : Tokens} (ht : OpensBlock t)
    (h : block source t ts = .ok (tree, later)) :
    ∃ used, ts.items = used ++ later.items ∧ later.stop = ts.stop ∧ IsBlock (t :: used) tree := by
  -- One case for each keyword; an action is not among them, its body being text.
  rcases ht with ht | ht | ht | ht
  · simp only [block, ht, lift_eq_ok_iff, schema, Except.bind_eq_ok_iff, Prod.exists] at h
    obtain ⟨_, items, ⟨name, ts₁, h₁, _, ts₂, h₂, fields, ts₃, h₃, h⟩, rfl, rfl⟩ := h
    obtain ⟨nameToken, hitems, haccept⟩ := expect_eq_ok_iff.mp h₁
    obtain ⟨hname, rfl⟩ := word_eq_some_iff.mp haccept
    obtain ⟨opening, rfl, hopening⟩ := expectMark_eq_ok_iff.mp h₂
    obtain ⟨used, rfl, hfields⟩ := (recognizes_fields ts.stop).sound h₃
    obtain ⟨rfl, rfl⟩ := Prod.mk.inj (Except.ok.inj h)
    exact ⟨nameToken :: opening :: used, hitems, rfl, .data ht hname hopening hfields⟩
  · simp only [block, ht, lift_eq_ok_iff, routes, Except.bind_eq_ok_iff, Prod.exists] at h
    obtain ⟨routes, items, ⟨_, ts₁, h₁, h₂⟩, rfl, rfl⟩ := h
    obtain ⟨labels, hitems, hlabels⟩ := skipLabel_eq ts.items
    obtain ⟨opening, hskip, hopening⟩ := expectMark_eq_ok_iff.mp h₁
    obtain ⟨used, rfl, hroutes⟩ := (recognizes_entries ts.stop).sound h₂
    refine ⟨labels ++ opening :: used, ?_, rfl, .route ht hlabels hopening hroutes⟩
    rw [hskip] at hitems
    rw [hitems, List.append_assoc, List.cons_append]
  · simp only [block, ht, lift_eq_ok_iff, migration, Except.bind_eq_ok_iff, Prod.exists] at h
    obtain ⟨_, items, ⟨version, ts₁, h₁, _, ts₂, h₂, operations, ts₃, h₃, h⟩, rfl, rfl⟩ := h
    obtain ⟨versionToken, hitems, haccept⟩ := expect_eq_ok_iff.mp h₁
    obtain ⟨hversion, rfl⟩ := wordOrString_eq_some_iff.mp haccept
    obtain ⟨opening, rfl, hopening⟩ := expectMark_eq_ok_iff.mp h₂
    obtain ⟨used, rfl, hoperations⟩ := (recognizes_operations ts.stop).sound h₃
    obtain ⟨rfl, rfl⟩ := Prod.mk.inj (Except.ok.inj h)
    exact ⟨versionToken :: opening :: used, hitems, rfl,
      .migration ht hversion hopening hoperations⟩
  · simp only [block, ht, lift_eq_ok_iff, importing, Except.bind_eq_ok_iff, Prod.exists] at h
    obtain ⟨_, items, ⟨path, ts₁, h₁, h⟩, rfl, rfl⟩ := h
    obtain ⟨pathToken, hitems, haccept⟩ := expect_eq_ok_iff.mp h₁
    obtain ⟨hpath, rfl⟩ := string_eq_some_iff.mp haccept
    obtain ⟨rfl, rfl⟩ := Prod.mk.inj (Except.ok.inj h)
    exact ⟨[pathToken], hitems, rfl, .importing ht hpath⟩

/-- What reading a block gives: a block of the grammar, an action, or nothing
for a token that is passed over. -/
theorem block_cases {source : List UInt8} {ts : Tokens}
    (h : block source t ts = .ok (tree, later)) :
    (∃ used, ts.items = used ++ later.items ∧ IsBlock (t :: used) tree) ∨
      (t.kind = .keyword .action ∧ ∃ a, tree = ofAction a ∧
        action source t.position.line ts = .ok (a, later)) ∨ tree = {} := by
  by_cases ht : OpensBlock t
  · obtain ⟨used, hitems, -, hblock⟩ := isBlock_of_block ht h
    exact .inl ⟨used, hitems, hblock⟩
  · simp only [block] at h
    split at h
    next hkind => exact absurd (.inl hkind) ht
    next hkind =>
      cases haction : action source t.position.line ts with
      | error e =>
          rw [haction] at h
          cases h
      | ok found =>
          rw [haction] at h
          obtain ⟨rfl, rfl⟩ := Prod.mk.inj (Except.ok.inj h)
          exact .inr (.inl ⟨hkind, found.1, rfl, rfl⟩)
    next hkind => exact absurd (.inr (.inl hkind)) ht
    next hkind => exact absurd (.inr (.inr (.inl hkind))) ht
    next hkind => exact absurd (.inr (.inr (.inr hkind))) ht
    next => cases h
    next => exact .inr (.inr (Prod.mk.inj (Except.ok.inj h)).1.symm)

/-- A block of the grammar is read wherever it stands: the source matters for
actions only, and nothing behind it matters at all. -/
theorem block_of_isBlock (source : List UInt8) {used : List Token} (h : IsBlock (t :: used) tree)
    (rest : List Token) (stop : Position) :
    block source t ⟨used ++ rest, stop⟩ = .ok (tree, ⟨rest, stop⟩) := by
  cases h with
  | data ht hname hopening hfields =>
      simp only [block, ht, schema, List.cons_append, expect_word hname, expectMark_mark hopening,
        Except.ok_bind, (recognizes_fields stop).complete hfields trivial]
      rfl
  | route ht hlabels hopening hroutes =>
      simp only [block, ht, routes, List.append_assoc, List.cons_append,
        skipLabel_append hlabels hopening, expectMark_mark hopening, Except.ok_bind,
        (recognizes_entries stop).complete hroutes trivial]
      rfl
  | migration ht hversion hopening hoperations =>
      simp only [block, ht, migration, List.cons_append, expect_label hversion,
        expectMark_mark hopening, Except.ok_bind,
        (recognizes_operations stop).complete hoperations trivial]
      rfl
  | importing ht hpath =>
      simp only [block, ht, importing, List.cons_append, List.nil_append, expect_string hpath,
        Except.ok_bind]
      rfl

/-- A block is read if and only if some of the tokens in front derive from the
grammar. Then these and no others are used up, and the tree is the one that they
denote. -/
theorem block_accepts_grammar (source : List UInt8) {t : Token} (ht : OpensBlock t)
    (items : List Token) (stop : Position) :
    ((∃ tree later, block source t ⟨items, stop⟩ = .ok (tree, later)) ↔
      ∃ used rest tree, items = used ++ rest ∧ IsBlock (t :: used) tree) ∧
    ∀ tree later, block source t ⟨items, stop⟩ = .ok (tree, later) ↔
      ∃ used rest, items = used ++ rest ∧ later = ⟨rest, stop⟩ ∧ IsBlock (t :: used) tree := by
  have hexact : ∀ tree later, block source t ⟨items, stop⟩ = .ok (tree, later) ↔
      ∃ used rest, items = used ++ rest ∧ later = ⟨rest, stop⟩ ∧ IsBlock (t :: used) tree := by
    intro tree later
    constructor
    · intro h
      obtain ⟨used, hitems, hstop, hblock⟩ := isBlock_of_block ht h
      exact ⟨used, later.items, hitems, congrArg (Tokens.mk later.items) hstop, hblock⟩
    · rintro ⟨used, rest, rfl, rfl, hblock⟩
      exact block_of_isBlock source hblock rest stop
  refine ⟨?_, hexact⟩
  constructor
  · rintro ⟨tree, later, h⟩
    obtain ⟨used, rest, hitems, -, hblock⟩ := (hexact tree later).mp h
    exact ⟨used, rest, tree, hitems, hblock⟩
  · rintro ⟨used, rest, tree, hitems, hblock⟩
    exact ⟨tree, ⟨rest, stop⟩, (hexact tree _).mpr ⟨used, rest, hitems, rfl, hblock⟩⟩

/-- A comma ends a pipeline in front of a verb, and may stand in front of a
bracket. -/
theorem block_accepts_grammar_pipelines :
    let token : Token.Kind → String → Token := fun kind text => ⟨kind, text, ⟨0, 1, 1⟩⟩
    let stop : Position := ⟨0, 2, 1⟩
    let items := [token (.mark .braceOpen) r"{", token (.verb .get) "GET", token .string "/a",
      token (.mark .arrow) "=>", token .name "validate", token (.mark .parenOpen) "(",
      token .name "A", token (.mark .parenClose) ")", token (.mark .comma) ",",
      token (.verb .post) "POST", token .string "/b", token (.mark .arrow) "=>",
      token (.mark .bracketOpen) "[", token (.keyword .data) "data", token (.mark .comma) ",",
      token (.mark .bracketClose) "]", token (.mark .braceClose) r"}"]
    OpensBlock (token (.keyword .route) "route") ∧
      block [] (token (.keyword .route) "route") ⟨items ++ [token .name "x"], stop⟩ =
        .ok ({ routes := [⟨.get, "/a", [.validate "A"], 1⟩, ⟨.post, "/b", [.action "data"], 1⟩] },
          ⟨[token .name "x"], stop⟩) := by
  intro token stop items
  have hopens : OpensBlock (token (.keyword .route) "route") := .inr (.inl rfl)
  refine ⟨hopens, ((block_accepts_grammar [] hopens _ stop).2 _ _).mpr
    ⟨items, [token .name "x"], rfl, rfl, ?_⟩⟩
  have hvalidate : IsStep [token .name "validate", token (.mark .parenOpen) "(", token .name "A",
      token (.mark .parenClose) ")"] (.validate "A") := .validate rfl rfl rfl rfl rfl
  have hdata : IsStep [token (.keyword .data) "data"] (.action "data") := .action rfl (by decide)
  have hget : IsRoute ((items.drop 1).take 7) ⟨.get, "/a", [.validate "A"], 1⟩ :=
    .route rfl rfl rfl (IsPipeline.plain hvalidate .nil)
  have hpost : IsRoute ((items.drop 9).take 7) ⟨.post, "/b", [.action "data"], 1⟩ :=
    .route rfl rfl rfl (IsPipeline.bracketed rfl hdata .nil (.inr ⟨_, rfl, rfl⟩) rfl)
  have hnone : ∀ t ∈ ([] : List Token), t.kind = .mark .comma := by simp
  have hclose : Listed IsRoute ((items.drop 16).take 1) [] := Listed.close hnone rfl
  have hone : ∀ t ∈ [token (.mark .comma) ","], t.kind = .mark .comma := by simp [token]
  exact .route rfl (.inl rfl) rfl (Listed.cons hnone hget (Listed.cons hone hpost hclose))

end Parser

end BlockLang
