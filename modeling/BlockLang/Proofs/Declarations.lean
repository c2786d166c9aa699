import BlockLang.Proofs.BlockRecognition

/-! # What the readers of declarations use

Every reader of a part of a declaration looks at no more than two tokens behind those that it uses
up. The signature of an action ends with its own last token, so it is read whatever follows it.
-/

namespace BlockLang

namespace Parser

open Grammar

variable {α : Type} {stop : Position} {ts rest : List Token}

/-! ## Fields -/

/-- What is read as arguments depends on the tokens up to the closing
parenthesis only. -/
theorem transfers_arguments (keyed : Arguments) (variants : List String) :
    Transfers fun stop => arguments stop keyed variants := by
  intro stop ts found rest h
  obtain ⟨used, items, closing, rfl, hitems, hclosing, rfl⟩ := arguments_sound h
  refine ⟨used ++ [closing], by simp, ?_⟩
  intro stop' rest' _
  rw [List.append_assoc, List.singleton_append]
  exact arguments_complete hitems hclosing

theorem transfers_optionalArguments : Transfers optionalArguments := by
  apply transfers_eat .parenOpen fun opened stop ts =>
    if opened then arguments stop [] [] ts else .ok ([], ts)
  · intro stop opened ts rest heat
    cases opened <;> simp only [optionalArguments, heat] <;> rfl
  · intro opened
    cases opened with
    | false => exact transfers_pure []
    | true => exact transfers_arguments [] []

theorem transfers_readField : Transfers readField := by
  apply Transfers.bind (transfers_expect _ _)
  intro name
  apply Transfers.bind (transfers_expect _ _)
  intro _
  apply Transfers.bind (transfers_expect _ _)
  intro typeName
  apply Transfers.bind transfers_optionalArguments
  intro found
  apply transfers_eat .question
  · intro stop optional ts rest heat
    simp only [heat]
    rfl
  · intro optional
    exact transfers_pure _

/-! ## Pipelines -/

/-- A step is read from its own tokens and from whether a parenthesis follows
the first of them. -/
theorem transfers_readStep : Transfers readStep := by
  apply Transfers.bind (transfers_expect _ _)
  intro name
  simp only
  split_ifs with hauth hvalidate
  · exact transfers_pure _
  · -- The word `validate` without a parenthesis names an action.
    refine transfers_eat .parenOpen (Bool.rec ?_ ?_) ?_ ?_
    · intro stop opened ts rest heat
      cases opened <;> simp only [heat] <;> rfl
    · intro opened
      cases opened with
      | false => exact transfers_pure _
      | true =>
          apply Transfers.bind (transfers_expect _ _)
          intro schema
          simp only
          apply Transfers.bind (transfers_expect _ _)
          intro _
          exact transfers_pure _
  · exact transfers_pure _

theorem startsStep_congr {ts' : List Token} (h : ts.head? = ts'.head?) :
    startsStep ts = startsStep ts' := by
  cases ts <;> cases ts' <;> simp at h
  · rfl
  · simp only [startsStep, h]

theorem eat_fst_congr {m : Mark} {ts' : List Token} (h : ts.head? = ts'.head?) :
    (eat m ts).1 = (eat m ts').1 := by
  cases ts <;> cases ts' <;> simp only [List.head?_nil, List.head?_cons, reduceCtorEq,
    Option.some.injEq] at h
  · rfl
  · subst h
    simp only [eat]
    split <;> rfl

/-- Further steps look one token further where a comma is ahead: it may end the
pipeline, and then it is not used up. -/
theorem transfers_moreSteps (bracketed : Bool) :
    Transfers fun stop => moreSteps stop bracketed := by
  intro stop ts
  beta_reduce
  fun_induction moreSteps stop bracketed ts with
  | case1 ts rest heat =>
      intro steps last h
      obtain ⟨rfl, rfl⟩ := Prod.mk.inj (Except.ok.inj h)
      obtain ⟨used, hsplit, hagain⟩ := eat_transfers heat
      refine ⟨used, hsplit, fun stop' rest' hfront => ?_⟩
      rw [moreSteps_eq, hagain rest' hfront]
  | case2 ts rest heat hstep =>
      intro steps last h
      obtain ⟨rfl, rfl⟩ := Prod.mk.inj (Except.ok.inj h)
      refine ⟨[], rfl, fun stop' rest' hfront => ?_⟩
      -- Both tokens ahead are looked at: the comma, and what follows it.
      obtain ⟨comma, rfl, hcomma⟩ := eat_eq_true_iff.mp heat
      obtain ⟨later', rfl⟩ := List.head?_eq_some_iff.mp hfront.head.symm
      have hhead : rest.head? = later'.head? := hfront.second (by simp [NoMark, hcomma])
      rw [List.nil_append, moreSteps_eq, eat_eq_true_iff.mpr ⟨comma, rfl, hcomma⟩]
      simp only
      rw [← startsStep_congr hhead, if_pos hstep]
  | case3 ts rest heat hstep hclose =>
      intro steps last h
      obtain ⟨rfl, rfl⟩ := Prod.mk.inj (Except.ok.inj h)
      obtain ⟨used, hsplit, hagain⟩ := eat_transfers heat
      refine ⟨used, hsplit, fun stop' rest' hfront => ?_⟩
      rw [moreSteps_eq, hagain rest' hfront]
      simp only
      rw [← startsStep_congr hfront.head, ← eat_fst_congr hfront.head, if_neg hstep, if_pos hclose]
  | case4 | case5 => intro steps last h; cases h
  | case6 ts rest heat hstep hclose first later hfirst _ more last hmore ih =>
      intro steps last' h
      obtain ⟨rfl, rfl⟩ := Prod.mk.inj (Except.ok.inj h)
      obtain ⟨u₁, hsplit, hagain⟩ := eat_transfers heat
      obtain ⟨u₂, s₂⟩ := transfers_readStep hfirst
      obtain ⟨u₃, s₃⟩ := ih hmore
      refine ⟨u₁ ++ (u₂ ++ u₃), ?_, fun stop' rest' hfront => ?_⟩
      · simp only [List.append_assoc, ← s₃.split, ← s₂.split, ← hsplit]
      · have hfront₂ := s₃.ahead hfront
        have hfront₁ := s₂.ahead hfront₂
        simp only [List.append_assoc]
        rw [moreSteps_eq, hagain _ hfront₁]
        simp only
        rw [← startsStep_congr hfront₁.head, ← eat_fst_congr hfront₁.head, if_neg hstep,
          if_neg hclose, s₂.again _ _ hfront₂]
        simp only
        rw [s₃.again _ _ hfront]

theorem transfers_readRoute : Transfers readRoute := by
  apply Transfers.bind (transfers_expect _ _)
  intro v
  apply Transfers.bind (transfers_expect _ _)
  intro path
  apply Transfers.bind (transfers_expect _ _)
  intro _
  apply transfers_eat .bracketOpen
  · intro stop bracketed ts rest heat
    simp only [heat]
    rfl
  · intro bracketed
    apply Transfers.bind transfers_readStep
    intro first
    simp only
    apply Transfers.bind (transfers_moreSteps bracketed)
    intro more
    simp only
    cases bracketed with
    | true =>
        apply Transfers.bind (transfers_expect _ _)
        intro _
        exact transfers_pure _
    | false => exact transfers_pure _

/-! ## Operations -/

theorem transfers_readOperation : Transfers readOperation := by
  apply Transfers.bind (transfers_expect _ _)
  intro kind
  apply Transfers.bind (transfers_expect _ _)
  intro table
  cases kind with
  | addColumn =>
      apply Transfers.bind (transfers_expect _ _)
      intro column
      apply Transfers.bind (transfers_expect _ _)
      intro typeName
      exact transfers_pure _
  | dropColumn =>
      apply Transfers.bind (transfers_expect _ _)
      intro column
      exact transfers_pure _
  | createTable | dropTable => exact transfers_pure _

/-! ## Signatures -/

/-- The tokens that a reader takes whatever follows them. -/
def Taken (read : Position → List Token → Outcome α) : Phrase α :=
  fun used a => ∀ stop rest, read stop (used ++ rest) = .ok (a, rest)

theorem taken_params_nil {closing : Token} (h : closing.kind = .mark .parenClose) :
    Taken params [closing] [] := by
  intro stop rest
  rw [List.singleton_append, params.eq_def]
  simp [isMark, h]

theorem taken_params_last {t closing : Token} (hword : t.kind.isWord = true)
    (h : closing.kind = .mark .parenClose) : Taken params [t, closing] [t.text] := by
  intro stop rest
  simp [params, isMark, h, hword, ne_mark_of_isWord hword]

theorem taken_params_cons {t comma : Token} {found : List String} (hword : t.kind.isWord = true)
    (hcomma : comma.kind = .mark .comma) (h : Taken params ts found) :
    Taken params (t :: comma :: ts) (t.text :: found) := by
  intro stop rest
  simp [params, isMark, hcomma, hword, ne_mark_of_isWord hword, h stop rest]

theorem taken_signature {name opening : Token} {found : List String}
    (hname : name.kind.isWord = true) (hopening : opening.kind = .mark .parenOpen)
    (h : Taken params ts found) : Taken signature (name :: opening :: ts) (name.text, found) := by
  intro stop rest
  simp only [signature, List.cons_append, expect_word hname, expectMark_mark hopening,
    Except.ok_bind, h stop rest]
  rfl

/-- Parameters are read up to their closing parenthesis whatever follows it, and
they are words. -/
theorem params_taken {found : List String} (h : params stop ts = .ok (found, rest)) :
    ∃ used, ts = used ++ rest ∧ Taken params used found ∧
      ((∀ t ∈ used, t.Sound) → ∀ p ∈ found, Text.IsWord p) := by
  fun_induction params stop ts generalizing found rest with
  | case1 | case3 | case4 | case7 | case8 => cases h
  | case2 t later hclose =>
      obtain ⟨rfl, rfl⟩ := Prod.mk.inj (Except.ok.inj h)
      exact ⟨[t], rfl, taken_params_nil (isMark_iff.mp hclose), by simp⟩
  | case5 t hclose hword separator later hcomma more last hmore ih =>
      obtain ⟨rfl, rfl⟩ := Prod.mk.inj (Except.ok.inj h)
      obtain ⟨used, rfl, htaken, hwords⟩ := ih hmore
      refine ⟨t :: separator :: used, rfl,
        taken_params_cons hword (isMark_iff.mp hcomma) htaken, ?_⟩
      intro hsound
      simp only [List.forall_mem_cons] at hsound ⊢
      exact ⟨hsound.1 hword, hwords hsound.2.2⟩
  | case6 t hclose hword separator later hcomma hend =>
      obtain ⟨rfl, rfl⟩ := Prod.mk.inj (Except.ok.inj h)
      refine ⟨[t, separator], rfl, taken_params_last hword (isMark_iff.mp hend), ?_⟩
      intro hsound
      simpa using hsound t (by simp) hword

/-- A signature is read whatever follows it, and the names that it gives are
words. -/
theorem signature_taken {found : String × List String}
    (h : signature stop ts = .ok (found, rest)) :
    ∃ used, ts = used ++ rest ∧ Taken signature used found ∧
      ((∀ t ∈ used, t.Sound) → Text.IsWord found.1 ∧ ∀ p ∈ found.2, Text.IsWord p) := by
  simp only [signature, Except.bind_eq_ok_iff, Prod.exists] at h
  obtain ⟨name, ts₁, h₁, _, ts₂, h₂, parameters, ts₃, h₃, h⟩ := h
  obtain ⟨nameToken, rfl, haccept⟩ := expect_eq_ok_iff.mp h₁
  obtain ⟨hname, rfl⟩ := word_eq_some_iff.mp haccept
  obtain ⟨opening, rfl, hopening⟩ := expectMark_eq_ok_iff.mp h₂
  obtain ⟨used, rfl, htaken, hwords⟩ := params_taken h₃
  obtain ⟨rfl, rfl⟩ := Prod.mk.inj (Except.ok.inj h)
  refine ⟨nameToken :: opening :: used, rfl, taken_signature hname hopening htaken, ?_⟩
  intro hsound
  simp only [List.forall_mem_cons] at hsound
  exact ⟨hsound.1 hname, hwords hsound.2.2⟩

end Parser

end BlockLang
