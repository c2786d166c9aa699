import BlockLang.Proofs.ViablePrefixes

/-! # Blocks fail at the first token that cannot go on

The readers of routes, of migrations, of actions and of whole blocks fail only behind tokens that
can be completed, at a token that rules out every completion. A comma behind a pipeline without
brackets belongs to the pipeline if a step follows, and the pipeline then fails inside that step. An
action is completed up to its body only, for its body is no matter of tokens.
-/

namespace BlockLang

namespace Parser

open Grammar

variable {α β : Type} {stop : Position} {ts rest : List Token}

/-! ## Steps -/

variable {t : Token} {bracketed : Bool} {e : ParseError} {items : List Token}

/-- Behind the word of a step only a validation can fail: where its parenthesis
opens, a schema and the closing one have to follow. -/
theorem detects_validation (hword : t.kind.isWord = true) :
    Detects (fun stop ts => readStep stop (t :: ts)) (After [t] IsStep) := by
  intro stop ts e h
  simp only [readStep, expect_word hword, Except.ok_bind] at h
  split_ifs at h with hauth hvalidate
  · cases h
  · split at h
    next later heat =>
      obtain ⟨opening, rfl, hopening⟩ := eat_eq_true_iff.mp heat
      have hinside : Detects (fun stop ts => (expect stop .schemaName word ts >>= fun schema =>
          expectMark stop .parenClose schema.2 >>= fun closed =>
            pure (Step.validate schema.1, closed.2) :
            Except ParseError (Step × List Token))) (After [opening] (After [t] IsStep)) := by
        apply Completes.detects
        apply completes_word
        intro schema hschema
        dsimp only
        apply completes_mark
        intro closing hclosing
        exact completes_pure (.validate hword hvalidate hopening hschema hclosing)
      obtain ⟨used, rest, expected, rfl, rfl, hhalts⟩ := hinside h
      refine ⟨[opening] ++ used, rest, expected, rfl, rfl, viable_after.mp hhalts.viable, ?_⟩
      intro t' ht' stop later
      simp only [readStep, expect_word hword, Except.ok_bind, if_neg hauth, if_pos hvalidate,
        List.cons_append, List.nil_append, eat_eq_true_iff.mpr ⟨opening, rfl, hopening⟩]
      exact hhalts.stuck t' ht' stop later
    next => cases h
  · cases h

/-- A step fails at its first token if this is no word, and behind a word only
as a validation does. -/
theorem detects_readStep : Detects readStep IsStep := by
  intro stop ts e h
  by_cases hhead : ∃ t us, ts = t :: us ∧ t.kind.isWord = true
  · obtain ⟨t, us, rfl, hword⟩ := hhead
    obtain ⟨used, rest, expected, rfl, rfl, hhalts⟩ := detects_validation hword h
    exact ⟨[t] ++ used, rest, expected, rfl, rfl, viable_after.mp hhalts.viable, hhalts.stuck⟩
  · have hnone : ∀ t ∈ ts.head?, word t = none := by
      intro t ht
      obtain ⟨us, rfl⟩ := List.head?_eq_some_iff.mp ht
      simp only [word]
      exact if_neg fun hword => hhead ⟨t, us, rfl, hword⟩
    have hfails : expect stop .step word ts = .error (unexpected stop .step ts) :=
      expect_eq_error_iff.mpr ⟨rfl, hnone⟩
    rw [readStep, hfails, Except.error_bind] at h
    obtain rfl := Except.error.inj h
    refine ⟨[], ts, .step, rfl, rfl, ⟨[.name], .cons fun t ht => ?_⟩, ?_⟩
    · by_cases htext : t.text = "auth"
      · exact .nil (.auth (isWord_of_name ht) htext)
      · exact .nil (.action (isWord_of_name ht) htext)
    · intro t ht stop later
      rw [List.nil_append, readStep, expect_stuck (hnone t ht), Except.error_bind]

theorem settles_readStep : Settles readStep IsStep :=
  settles_of_transfers transfers_readStep recognizes_readStep

/-! ## Pipelines -/

theorem isLaterStep_of_startsStep {comma : Token} {used : List Token} {s : Step}
    (hcomma : comma.kind = .mark .comma) (hstep : IsStep used s)
    (hstarts : ¬ (!bracketed && !startsStep (used ++ rest)) = true) :
    IsLaterStep bracketed (comma :: used) s := by
  refine ⟨hcomma, hstep, ?_⟩
  rintro rfl t ht
  obtain ⟨us, rfl⟩ := List.head?_eq_some_iff.mp ht
  have hstarts : startsStep (t :: (us ++ rest)) = true := by simpa using hstarts
  exact (startsStep_cons.mp hstarts).2

/-- Where steps inside brackets end no comma follows, for one in front of the
closing bracket is taken. -/
theorem noMark_of_moreSteps {steps : List Step} (h : moreSteps stop true ts = .ok (steps, rest)) :
    NoMark .comma rest := by
  generalize hbracketed : true = bracketed at h
  fun_induction moreSteps stop bracketed ts generalizing steps rest with
  | case1 ts later heat =>
      obtain ⟨rfl, rfl⟩ := Prod.mk.inj (Except.ok.inj h)
      obtain ⟨rfl, hcomma⟩ := eat_eq_false_iff.mp heat
      exact hcomma
  | case2 ts later heat hstarts => simp [← hbracketed] at hstarts
  | case3 ts later heat hstarts hclose =>
      obtain ⟨rfl, rfl⟩ := Prod.mk.inj (Except.ok.inj h)
      obtain ⟨-, hclose⟩ := Bool.and_eq_true_iff.mp hclose
      obtain ⟨closing, hlater, hclosing⟩ := eat_eq_true_iff.mp (Prod.ext hclose rfl)
      intro t ht
      rw [hlater] at ht
      obtain rfl := Option.some.inj ht
      simp [hclosing]
  | case4 | case5 => cases h
  | case6 ts later heat hstarts hclose s after hstep _ more last hmore ih =>
      obtain ⟨rfl, rfl⟩ := Prod.mk.inj (Except.ok.inj h)
      exact ih hmore

/-- Steps that go on are settled: what they have used up is read alike in front
of anything that looks the same. -/
theorem moreSteps_settles {steps : List Step}
    (h : moreSteps stop bracketed ts = .ok (steps, rest)) :
    ∃ used commas, ts = used ++ (commas ++ rest) ∧ Many (IsLaterStep bracketed) used steps ∧
      IsOptionalComma commas ∧ (bracketed = false → commas = []) ∧
      (bracketed = true → NoMark .comma rest) ∧
      ∀ stop' rest', SameFront rest rest' →
        moreSteps stop' bracketed (used ++ (commas ++ rest')) = .ok (steps, rest') := by
  obtain ⟨used, commas, rfl, hmany, hcommas, hplain⟩ := moreSteps_sound h
  refine ⟨used, commas, rfl, hmany, hcommas, hplain, ?_, ?_⟩
  · rintro rfl
    exact noMark_of_moreSteps h
  · intro stop' rest' hfront
    obtain ⟨used', huses⟩ := transfers_moreSteps bracketed h
    have hsplit := huses.split
    rw [← List.append_assoc] at hsplit
    obtain rfl := List.append_cancel_right hsplit
    rw [← List.append_assoc]
    exact huses.again stop' rest' hfront

/-- A step that fails behind a comma can be completed to a later step, so the
comma was rightly taken. -/
theorem laterStep_halts {comma : Token} (hcomma : comma.kind = .mark .comma)
    (hstarts : ¬ (!bracketed && !startsStep ts) = true) (h : readStep stop ts = .error e) :
    ∃ used rest expected, ts = used ++ rest ∧ e = unexpected stop expected rest ∧
      Halts readStep IsStep used expected rest ∧
        Viable (IsLaterStep bracketed) (comma :: used) := by
  cases bracketed with
  | true =>
      obtain ⟨used, rest, expected, rfl, rfl, hhalts⟩ := detects_readStep h
      refine ⟨used, rest, expected, rfl, rfl, hhalts, ?_⟩
      have hviable : Viable (IsLaterStep true) ([comma] ++ used) :=
        viable_after.mp (hhalts.viable.mono fun hstep => ⟨_, .step hcomma hstep (by simp)⟩)
      exact hviable
  | false =>
      -- The step begins with a word here, which is no verb.
      have hstarts : startsStep ts = true := by simpa using hstarts
      obtain ⟨t, us, rfl⟩ : ∃ t us, ts = t :: us :=
        List.exists_cons_of_ne_nil fun hnil => by simp [hnil, startsStep] at hstarts
      obtain ⟨hword, hverb⟩ := startsStep_cons.mp hstarts
      obtain ⟨used, rest, expected, rfl, rfl, hhalts⟩ := detects_validation hword h
      refine ⟨[t] ++ used, rest, expected, rfl, rfl,
        ⟨viable_after.mp hhalts.viable, hhalts.stuck⟩, ?_⟩
      have hviable : Viable (IsLaterStep false) ([comma, t] ++ used) := by
        refine viable_after.mp (hhalts.viable.mono fun hstep => ⟨_, .step hcomma hstep ?_⟩)
        intro _ t' ht'
        obtain rfl := Option.some.inj ht'
        exact hverb
      exact hviable

/-- Steps fail behind a comma, inside the step that follows it. -/
theorem moreSteps_halts (h : moreSteps stop bracketed ts = .error e) :
    ∃ used rest expected, ts = used ++ rest ∧ e = unexpected stop expected rest ∧
      Halts (fun stop => moreSteps stop bracketed) (Many (IsLaterStep bracketed)) used expected
        rest ∧ used ≠ [] := by
  fun_induction moreSteps stop bracketed ts with
  | case1 | case2 | case3 | case6 => cases h
  -- The step behind the comma fails: it halts alone, and a list of one step completes it.
  | case4 ts later heat hstarts hclose e' hstep =>
      obtain rfl := Except.error.inj h
      obtain ⟨comma, rfl, hcomma⟩ := eat_eq_true_iff.mp heat
      obtain ⟨used, rest, expected, rfl, rfl, hhalts, hviable⟩ :=
        laterStep_halts hcomma hstarts hstep
      refine ⟨comma :: used, rest, expected, rfl, rfl, ⟨?_, ?_⟩, by simp⟩
      · apply hviable.mono
        intro ts s hs
        have hmany := Many.cons hs .nil
        rw [List.append_nil] at hmany
        exact ⟨_, hmany⟩
      · intro t ht stop' later'
        have hhead := head?_append_cons ht used later'
        rw [startsStep_congr hhead] at hstarts
        rw [eat_fst_congr hhead] at hclose
        rw [List.cons_append, moreSteps_eq, eat_eq_true_iff.mpr ⟨comma, rfl, hcomma⟩]
        simp only [if_neg hstarts, if_neg hclose, hhalts.stuck t ht]
  -- The step is read and the failure lies in a later one, which the induction places.
  | case5 ts later heat hstarts hclose s after hstep _ e' hmore ih =>
      obtain rfl := Except.error.inj h
      obtain ⟨comma, rfl, hcomma⟩ := eat_eq_true_iff.mp heat
      obtain ⟨used₁, rfl, hphrase, hagain⟩ := settles_readStep hstep
      obtain ⟨used₂, rest, expected, rfl, rfl, hhalts, hused⟩ := ih hmore
      have hlater := isLaterStep_of_startsStep hcomma hphrase hstarts
      refine ⟨(comma :: used₁) ++ used₂, rest, expected, by simp, rfl, ⟨?_, ?_⟩, by simp⟩
      · exact viable_after.mp (hhalts.viable.mono fun hmany => ⟨_, .cons hlater hmany⟩)
      · intro t ht stop' later'
        have hhead := head?_append_cons ht (used₁ ++ used₂) later'
        rw [List.append_assoc, List.append_assoc] at hhead
        rw [startsStep_congr hhead] at hstarts
        rw [eat_fst_congr hhead] at hclose
        have hstep := hagain stop' _ (SameFront.of_token ht (fun h => absurd h hused) later')
        rw [List.append_assoc, List.cons_append, moreSteps_eq,
          eat_eq_true_iff.mpr ⟨comma, rfl, hcomma⟩]
        simp only [if_neg hstarts, if_neg hclose, hstep, hhalts.stuck t ht]

/-- A pipeline fails in one of its steps, or where it lacks its closing
bracket. -/
theorem detects_pipeline {kinds : List Token.Kind} {phrase : Phrase β} (make : List Step → Route)
    (hclose : ∀ {ts us commas s steps}, IsStep ts s → Many (IsLaterStep bracketed) us steps →
      IsOptionalComma commas → (bracketed = false → commas = []) →
        MadeOf kinds (After (ts ++ (us ++ commas)) phrase)) :
    Detects (fun stop ts => (readStep stop ts >>= fun first =>
      moreSteps stop bracketed first.2 >>= fun more =>
        if bracketed then expectMark stop .bracketClose more.2 >>= fun closed =>
          pure (make (first.1 :: more.1), closed.2)
        else pure (make (first.1 :: more.1), more.2) : Except ParseError (Route × List Token)))
      phrase := by
  intro stop ts e h
  -- The failure is in the first step, among the later steps, or at the closing bracket.
  rcases Except.bind_eq_error_iff.mp h with hfirst | ⟨⟨first, ts₁⟩, hfirst, hbehind⟩
  · obtain ⟨used, rest, expected, rfl, rfl, hhalts⟩ := detects_readStep hfirst
    refine ⟨used, rest, expected, rfl, rfl, ?_, ?_⟩
    · apply hhalts.viable.close kinds
      intro ts s hstep
      have hmade := hclose hstep .nil (.inl rfl) fun _ => rfl
      rwa [List.append_nil, List.append_nil] at hmade
    · intro t ht stop later
      rw [hhalts.stuck t ht, Except.error_bind]
  · obtain ⟨used₁, rfl, hstep, hagain⟩ := settles_readStep hfirst
    rcases Except.bind_eq_error_iff.mp hbehind with hmore | ⟨⟨more, ts₂⟩, hmore, hend⟩
    · obtain ⟨used₂, rest, expected, rfl, rfl, hhalts, hused⟩ := moreSteps_halts hmore
      refine ⟨used₁ ++ used₂, rest, expected, by simp, rfl, ?_, ?_⟩
      · refine viable_after.mp (hhalts.viable.close kinds ?_)
        intro ts steps hmany
        have hmade := hclose hstep hmany (.inl rfl) fun _ => rfl
        rw [List.append_nil] at hmade
        simpa only [MadeOf, After, List.append_assoc] using hmade
      · intro t ht stop later
        have hfront := SameFront.of_token ht (fun h => absurd h hused) later
        rw [List.append_assoc, hagain stop _ hfront, Except.ok_bind, hhalts.stuck t ht,
          Except.error_bind]
    · obtain ⟨used₂, commas, rfl, hmany, hcommas, hplain, hcomma, hsteps⟩ := moreSteps_settles hmore
      cases bracketed with
      | false => cases hend
      | true =>
          simp only [if_true] at hend
          rcases Except.bind_eq_error_iff.mp hend with hclosing | ⟨closed, -, hend⟩
          · obtain ⟨rfl, hnone⟩ := expect_eq_error_iff.mp hclosing
            refine ⟨used₁ ++ (used₂ ++ commas), ts₂, _, by simp, rfl,
              ⟨kinds, hclose hstep hmany hcommas hplain⟩, ?_⟩
            intro t ht stop later
            -- Both lists go on alike behind the commas, so the steps end where they did before.
            have hfront : SameFront ([] ++ ts₂) ([] ++ t :: later) :=
              .of_token ht (fun _ => hcomma rfl) later
            rw [List.nil_append, List.nil_append] at hfront
            have hfirst := hagain stop _ ((hfront.append commas).append used₂)
            simp only [List.append_assoc, hfirst, Except.ok_bind, hsteps stop _ hfront, if_true]
            rw [expectMark, expect_stuck (hnone t ht), Except.error_bind]
          · cases hend

/-- A route fails at the first token with which no route goes on. -/
theorem detects_readRoute : Detects readRoute (AtMostOne IsRoute) := by
  refine detects_expect (.of_phrase .none) fun {verb v} h₁ => ?_
  have h₁ := (verb_eq_some_iff.mp h₁).1
  apply Completes.detects
  apply completes_string
  intro path h₂
  apply completes_mark
  intro arrow h₃
  have hroute : ∀ {ts steps}, IsPipeline ts steps →
      After [arrow] (After [path] (After [verb] (AtMostOne IsRoute))) ts
        (some ⟨v.1, path.text, steps, verb.position.line⟩) :=
    fun hpipeline => .some (.route h₁ h₂ h₃ hpipeline)
  have hstep :
      MadeOf [.name] (After [arrow] (After [path] (After [verb] (AtMostOne IsRoute)))) := by
    refine .cons fun t ht => ?_
    obtain ⟨s, hs⟩ : ∃ s, IsStep [t] s := by
      by_cases htext : t.text = "auth"
      · exact ⟨_, .auth (isWord_of_name ht) htext⟩
      · exact ⟨_, .action (isWord_of_name ht) htext⟩
    have hpipeline := IsPipeline.plain hs .nil
    exact .nil (hroute hpipeline)
  refine ⟨hstep, ?_⟩
  intro stop ts e h
  dsimp only at h
  rcases heat : eat .bracketOpen ts with ⟨bracketed, ts₁⟩
  rw [heat] at h
  -- The two spellings of a pipeline differ only in the tokens that complete one.
  cases bracketed with
  | true =>
      obtain ⟨opening, rfl, hopening⟩ := eat_eq_true_iff.mp heat
      have hclose : ∀ {ts us commas s steps}, IsStep ts s → Many (IsLaterStep true) us steps →
          IsOptionalComma commas → (true = false → commas = []) →
            MadeOf [.mark .bracketClose] (After (ts ++ (us ++ commas)) (After [opening]
              (After [arrow] (After [path] (After [verb] (AtMostOne IsRoute)))))) := by
        intro ts us commas s steps hstep hmany hcommas _
        refine .cons fun closing hclosing => ?_
        have hpipeline := IsPipeline.bracketed hopening hstep hmany hcommas hclosing
        have hsplit : opening :: (ts ++ us) ++ (commas ++ [closing]) =
            opening :: (ts ++ (us ++ commas) ++ [closing]) := by simp
        rw [hsplit] at hpipeline
        exact .nil (hroute hpipeline)
      obtain ⟨used, rest, expected, rfl, rfl, hhalts⟩ :=
        detects_pipeline (fun steps => ⟨v.1, _, steps, v.2⟩) hclose h
      refine ⟨[opening] ++ used, rest, expected, rfl, rfl, viable_after.mp hhalts.viable, ?_⟩
      intro t ht stop later
      simp only [List.cons_append, List.nil_append, eat_eq_true_iff.mpr ⟨opening, rfl, hopening⟩]
      exact hhalts.stuck t ht stop later
  | false =>
      obtain ⟨rfl, hopen⟩ := eat_eq_false_iff.mp heat
      have hclose : ∀ {ts us commas s steps}, IsStep ts s → Many (IsLaterStep false) us steps →
          IsOptionalComma commas → (false = false → commas = []) →
            MadeOf [] (After (ts ++ (us ++ commas))
              (After [arrow] (After [path] (After [verb] (AtMostOne IsRoute))))) := by
        intro ts us commas s steps hstep hmany _ hplain
        obtain rfl := hplain rfl
        have hpipeline := IsPipeline.plain hstep hmany
        have hsplit : ts ++ us = ts ++ (us ++ []) ++ [] := by simp
        rw [hsplit] at hpipeline
        exact .nil (hroute hpipeline)
      obtain ⟨used, rest, expected, rfl, rfl, hhalts⟩ :=
        detects_pipeline (fun steps => ⟨v.1, _, steps, v.2⟩) hclose h
      refine ⟨used, rest, expected, rfl, rfl, hhalts.viable, ?_⟩
      intro t ht stop later
      have hopen' := (noMark_congr (head?_append_cons ht used later)).mp hopen
      simp only [eat_eq_false_iff.mpr ⟨rfl, hopen'⟩]
      exact hhalts.stuck t ht stop later

/-- A route that is read in full is settled, by the grammar and not by a look at
the reader. -/
theorem settles_readRoute : Settles readRoute IsRoute :=
  settles_of_transfers transfers_readRoute recognizes_readRoute

theorem settles_readOperation : Settles readOperation IsOperation :=
  settles_of_transfers transfers_readOperation recognizes_readOperation

/-- The entries of a block of routes are completed by a closing brace, whichever
of them was begun. -/
theorem completes_entries :
    Completes [.mark .braceClose] (fun stop => (route stop).untilBrace) (Listed IsRoute) :=
  completes_untilBrace detects_readRoute settles_readRoute

/-! ## Operations -/

/-- An operation fails at the first token with which no operation goes on. -/
theorem detects_readOperation : Detects readOperation (AtMostOne IsOperation) := by
  refine detects_expect (.of_phrase .none) fun {t kind} h₁ => ?_
  have h₁ := operationWord_eq_some_iff.mp h₁
  cases kind with
  | addColumn =>
      apply Completes.detects
      apply completes_string
      intro table htable
      apply completes_label
      intro column hcolumn
      apply completes_word
      intro typeName htype
      exact completes_pure (.some (.addColumn h₁ htable hcolumn htype))
  | dropColumn =>
      apply Completes.detects
      apply completes_string
      intro table htable
      apply completes_label
      intro column hcolumn
      exact completes_pure (.some (.dropColumn h₁ htable hcolumn))
  | createTable =>
      apply Completes.detects
      apply completes_string
      intro table htable
      exact completes_pure (.some (.createTable h₁ htable))
  | dropTable =>
      apply Completes.detects
      apply completes_string
      intro table htable
      exact completes_pure (.some (.dropTable h₁ htable))

theorem completes_operations :
    Completes [.mark .braceClose] (fun stop => (operation stop).untilBrace) (Listed IsOperation) :=
  completes_untilBrace detects_readOperation settles_readOperation

/-! ## Blocks of the grammar -/

theorem detects_schema (ht : t.kind = .keyword .data) (line : Nat) :
    Detects (fun stop => schema stop line) (After [t] IsBlock) := by
  apply Completes.detects
  apply completes_word
  intro name hname
  apply completes_mark
  intro opening hopening
  apply completes_last completes_fields
  · intro ts fields hfields
    exact ⟨_, .data ht hname hopening hfields⟩
  · intro stop found e h
    cases h

theorem detects_migration (ht : t.kind = .keyword .migration) (line : Nat) :
    Detects (fun stop => migration stop line) (After [t] IsBlock) := by
  apply Completes.detects
  apply completes_label
  intro version hversion
  apply completes_mark
  intro opening hopening
  apply completes_last completes_operations
  · intro ts operations hoperations
    exact ⟨_, .migration ht hversion hopening hoperations⟩
  · intro stop found e h
    cases h

theorem detects_importing (ht : t.kind = .keyword .importing) (line : Nat) :
    Detects (fun stop => importing stop line) (After [t] IsBlock) := by
  apply Completes.detects
  apply completes_string
  intro path hpath
  exact completes_pure (.importing ht hpath)

theorem skipLabel_of_head (h : ∀ t ∈ ts.head?, ¬ IsLabel t) : skipLabel ts = ts := by
  cases ts with
  | nil => rfl
  | cons t rest =>
      have hnone : ¬ (wordOrString t).isSome = true := by
        intro hsome
        obtain ⟨s, hs⟩ := Option.isSome_iff_exists.mp hsome
        exact h t rfl (wordOrString_eq_some_iff.mp hs).1
      simp only [skipLabel, if_neg hnone]

/-- A block of routes fails in its label or its brace, or in one of its
entries. -/
theorem detects_routes (ht : t.kind = .keyword .route) : Detects routes (After [t] IsBlock) := by
  have hbehind : ∀ {labels : List Token},
      (labels = [] ∨ ∃ label, labels = [label] ∧ IsLabel label) →
      Detects (fun stop ts => (expectMark stop .braceOpen ts >>= fun opened =>
        (route stop).untilBrace opened.2 : Except ParseError (List Route × List Token)))
        (After labels (After [t] IsBlock)) := by
    intro labels hlabels
    apply Completes.detects
    apply completes_mark
    intro opening hopening
    refine ⟨.cons fun _ hbrace => .nil (.route ht hlabels hopening (listed_nil hbrace)), ?_⟩
    intro stop ts e h
    obtain ⟨used, rest, expected, hts, he, hhalts⟩ := completes_entries.detects h
    refine ⟨used, rest, expected, hts, he, ?_, hhalts.stuck⟩
    exact hhalts.viable.mono fun hroutes => ⟨_, .route ht hlabels hopening hroutes⟩
  intro stop ts e h
  -- A label is optional, so a failure is placed with the label and without it.
  by_cases hlabel : ∃ label us, ts = label :: us ∧ IsLabel label
  · obtain ⟨label, us, rfl, hlabel⟩ := hlabel
    have hskip : ∀ later, skipLabel (label :: later) = later := by
      intro later
      simp [skipLabel, wordOrString_eq_some_iff.mpr ⟨hlabel, rfl⟩]
    rw [routes, hskip] at h
    obtain ⟨used, rest, expected, rfl, rfl, hhalts⟩ := hbehind (.inr ⟨label, rfl, hlabel⟩) h
    refine ⟨[label] ++ used, rest, expected, rfl, rfl, viable_after.mp hhalts.viable, ?_⟩
    intro t' ht' stop later
    rw [List.append_assoc, List.singleton_append, routes, hskip]
    exact hhalts.stuck t' ht' stop later
  · have hnone : ∀ t ∈ ts.head?, ¬ IsLabel t := by
      intro t' ht' hlabel'
      obtain ⟨us, rfl⟩ := List.head?_eq_some_iff.mp ht'
      exact hlabel ⟨t', us, rfl, hlabel'⟩
    rw [routes, skipLabel_of_head hnone] at h
    obtain ⟨used, rest, expected, rfl, rfl, hhalts⟩ := hbehind (.inl rfl) h
    refine ⟨used, rest, expected, rfl, rfl, viable_after.mp hhalts.viable, ?_⟩
    intro t' ht' stop later
    rw [head?_append_cons ht' used later] at hnone
    rw [routes, skipLabel_of_head hnone]
    exact hhalts.stuck t' ht' stop later

/-! ## Actions -/

/-- Parameters are completed by a closing parenthesis. -/
theorem completes_params : Completes [.mark .parenClose] params (Taken params) := by
  have hclose : MadeOf [.mark .parenClose] (Taken params) :=
    .cons fun _ hclosing => .nil (taken_params_nil hclosing)
  have hlast : ∀ {t : Token}, t.kind.isWord = true →
      MadeOf [.mark .parenClose] (After [t] (Taken params)) :=
    fun hword => .cons fun _ hclosing => .nil (taken_params_last hword hclosing)
  refine ⟨hclose, ?_⟩
  intro stop ts e h
  -- Whatever is read before the failure, one closing parenthesis completes it.
  fun_induction params stop ts with
  | case1 =>
      obtain rfl := Except.error.inj h
      exact ⟨[], [], _, rfl, rfl, hclose.viable, by simp⟩
  | case2 | case5 | case6 => cases h
  | case3 t hclose' hword =>
      obtain rfl := Except.error.inj h
      exact ⟨[t], [], _, rfl, rfl, viable_after.mp ((hlast hword).viable), by simp⟩
  | case4 t hclose' hword separator later hcomma e' he ih =>
      obtain rfl := Except.error.inj h
      obtain ⟨used, rest, expected, rfl, rfl, hhalts⟩ := ih he
      refine ⟨[t, separator] ++ used, rest, expected, rfl, rfl, ?_, ?_⟩
      · exact viable_after.mp (hhalts.viable.mono fun hfound =>
          ⟨_, taken_params_cons hword (isMark_iff.mp hcomma) hfound⟩)
      · intro t' ht' stop later
        rw [List.append_assoc, List.cons_append, List.singleton_append, params.eq_def]
        simp only [if_neg hclose', if_pos hword, if_pos hcomma, hhalts.stuck t' ht' stop later]
  | case7 t hclose' hword separator later hcomma hend =>
      obtain rfl := Except.error.inj h
      refine ⟨[t], separator :: later, _, rfl, rfl,
        viable_after.mp ((hlast hword).viable), ?_⟩
      intro t' ht' stop later
      obtain rfl := Option.some.inj ht'
      rw [List.singleton_append, params.eq_def]
      simp only [if_neg hclose', if_pos hword, if_neg hcomma, if_neg hend]
  | case8 t later hclose' hword =>
      obtain rfl := Except.error.inj h
      refine ⟨[], t :: later, _, rfl, rfl, hclose.viable, ?_⟩
      intro t' ht' stop later
      obtain rfl := Option.some.inj ht'
      rw [List.nil_append, params.eq_def]
      simp only [if_neg hclose', if_neg hword]

/-- The signature of an action fails at its name, at its opening parenthesis, or
in its parameters. -/
theorem detects_signature : Detects signature (Taken signature) := by
  apply Completes.detects
  apply completes_word
  intro name hname
  apply completes_mark
  intro opening hopening
  apply completes_last completes_params
  · intro ts found hfound
    exact ⟨_, taken_signature hname hopening hfound⟩
  · intro stop found e h
    cases h

/-! ## Blocks -/

/-- Whether a block may go on behind some tokens. -/
inductive Extendable : List Token → Prop
  | start : Extendable []
  | block {used : List Token} (h : Viable IsBlock used) : Extendable used
  | action {t : Token} {used : List Token} (ht : t.kind = .keyword .action)
      (h : Viable (Taken signature) used) : Extendable (t :: used)

theorem bodyBrace_eq_error_iff :
    bodyBrace stop ts = .error e ↔ e = unexpected stop .bodyOpen ts ∧ NoMark .braceOpen ts := by
  cases ts with
  | nil => simp [bodyBrace, NoMark, eq_comm]
  | cons t rest =>
      by_cases hopen : t.kind = .mark .braceOpen
      · simp [bodyBrace, isMark, NoMark, hopen]
      · simp [bodyBrace, isMark, NoMark, hopen, eq_comm]

/-- Where a block fails: it may go on with these tokens, and with the next one
it fails there, in whatever source and whatever comes next. -/
structure BlockHalts (used rest : List Token) (e : ParseError) : Prop where
  extendable : Extendable used
  stuck : ∀ t ∈ rest.head?, ∀ source first items later stop,
    used ++ t :: later = first :: items → block source first ⟨items, stop⟩ = .error (.parse e)

/-- Whether the error of some tokens says where they fail: it names the first
token behind which nothing can help. -/
def FailsIn (ts : List Token) (stop : Position) (e : ParseError) : Prop :=
  ∃ used rest expected, ts = used ++ rest ∧ e = unexpected stop expected rest ∧
    BlockHalts used rest e

/-- A block whose reader looks at tokens only fails where the reader does. -/
theorem failsIn_of_detects {read : Position → List Token → Outcome α}
    (hread : Detects read (After [t] IsBlock))
    (hblock : ∀ source later stop', read stop' later = .error e →
      block source t ⟨later, stop'⟩ = .error (.parse e)) (h : read stop items = .error e) :
    FailsIn (t :: items) stop e := by
  obtain ⟨used, rest, expected, rfl, rfl, hhalts⟩ := hread h
  refine ⟨[t] ++ used, rest, expected, rfl, rfl, .block (viable_after.mp hhalts.viable), ?_⟩
  intro t' ht' source first items later stop' hsplit
  obtain ⟨rfl, rfl⟩ := List.cons.inj hsplit
  obtain ⟨rest', rfl⟩ := List.head?_eq_some_iff.mp ht'
  exact hblock source _ stop' (hhalts.stuck t' ht' stop' later)

/-- An action that fails at a token fails in its signature or for want of a
brace; its body fails in another way. -/
theorem failsIn_of_action {source : List UInt8} (ht : t.kind = .keyword .action)
    (h : action source t.position.line ⟨items, stop⟩ = .error (.parse e)) :
    FailsIn (t :: items) stop e := by
  have hblock : ∀ source' later stop', action source' t.position.line ⟨later, stop'⟩ =
      .error (.parse e) → block source' t ⟨later, stop'⟩ = .error (.parse e) := by
    intro source' later stop' haction
    simp only [block, ht]
    exact Except.map_eq_error_iff.mpr haction
  rcases action_eq_error_iff.mp h with hsignature | ⟨found, later, hsignature, hbrace⟩
  · obtain ⟨used, rest, expected, rfl, rfl, hhalts⟩ := detects_signature hsignature
    refine ⟨t :: used, rest, expected, rfl, rfl, .action ht hhalts.viable, ?_⟩
    intro t' ht' source' first items later stop' hsplit
    obtain ⟨rfl, rfl⟩ := List.cons.inj hsplit
    obtain ⟨rest', rfl⟩ := List.head?_eq_some_iff.mp ht'
    exact hblock source' _ stop' (action_eq_error_iff.mpr (.inl (hhalts.stuck t' ht' stop' later)))
  · obtain ⟨used, rfl, htaken, -⟩ := signature_taken hsignature
    obtain ⟨rfl, hopen⟩ := bodyBrace_eq_error_iff.mp hbrace
    refine ⟨t :: used, later, .bodyOpen, rfl, rfl, .action ht (.of_phrase htaken), ?_⟩
    intro t' ht' source' first items later' stop' hsplit
    obtain ⟨rfl, rfl⟩ := List.cons.inj hsplit
    obtain ⟨rest', rfl⟩ := List.head?_eq_some_iff.mp ht'
    refine hblock source' _ stop' (action_eq_error_iff.mpr (.inr ⟨found, _, htaken stop' _, ?_⟩))
    exact bodyBrace_eq_error_iff.mpr ⟨rfl, (noMark_congr rfl).mp hopen⟩

/-- A block that cannot be read fails at the first token with which no block
goes on. -/
theorem failsIn_of_block {source : List UInt8}
    (h : block source t ⟨items, stop⟩ = .error (.parse e)) : FailsIn (t :: items) stop e := by
  simp only [block] at h
  split at h
  next ht =>
    refine failsIn_of_detects (detects_schema ht t.position.line) ?_ (lift_eq_error_iff.mp h)
    intro source' later stop' herror
    simp only [block, ht]
    exact lift_eq_error_iff.mpr herror
  -- An action is the one block whose error may come from its text as well as from its tokens.
  next ht => exact failsIn_of_action ht (Except.map_eq_error_iff.mp h)
  next ht =>
    refine failsIn_of_detects (detects_routes ht) ?_ (lift_eq_error_iff.mp h)
    intro source' later stop' herror
    simp only [block, ht]
    exact lift_eq_error_iff.mpr herror
  next ht =>
    refine failsIn_of_detects (detects_migration ht t.position.line) ?_ (lift_eq_error_iff.mp h)
    intro source' later stop' herror
    simp only [block, ht]
    exact lift_eq_error_iff.mpr herror
  next ht =>
    refine failsIn_of_detects (detects_importing ht t.position.line) ?_ (lift_eq_error_iff.mp h)
    intro source' later stop' herror
    simp only [block, ht]
    exact lift_eq_error_iff.mpr herror
  next ht =>
    obtain rfl := SyntaxError.parse.inj (Except.error.inj h)
    refine ⟨[], t :: items, .closingQuote, rfl, rfl, .start, ?_⟩
    intro t' ht' source' first items later stop' hsplit
    obtain ⟨rfl, rfl⟩ := List.cons.inj hsplit
    obtain rfl := Option.some.inj ht'
    simp only [block, ht]
    rfl
  next => cases h

end Parser

end BlockLang
