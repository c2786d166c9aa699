import BlockLang.Tree.Basic
import BlockLang.Tree.Parser.Rule

/-! # Reading routes

An entry of a route block is a verb, a path and a pipeline. A pipeline may stand between brackets;
without them a comma continues it only if a step can follow, so that entries can be separated by
commas too.
-/

namespace BlockLang.Parser

/-- Read a step of a pipeline: a word alone, or the word for a validation with
its schema between parentheses. -/
def readStep (stop : Position) (ts : List Token) : Except ParseError (Step × List Token) := do
  let (name, ts) ← expect stop .step word ts
  if name = "auth" then return (.auth, ts)
  else if name = "validate" then
    match eat .parenOpen ts with
    | (true, ts) =>
      let (schema, ts) ← expect stop .schemaName word ts
      let (_, ts) ← expectMark stop .parenClose ts
      return (.validate schema, ts)
    | (false, ts) => return (.action name, ts)
  else return (.action name, ts)

/-- A step uses up its word at least. -/
theorem length_of_readStep {stop : Position} {s : Step} {ts rest : List Token}
    (h : readStep stop ts = .ok (s, rest)) : rest.length < ts.length := by
  simp only [readStep, Except.bind_eq_ok_iff, Prod.exists] at h
  obtain ⟨name, ts₁, h₁, h⟩ := h
  have l₁ := length_of_expect h₁
  have l₂ := length_eat_le .parenOpen ts₁
  split at h
  · simp only [pure, Except.pure, Except.ok.injEq, Prod.mk.injEq] at h
    rwa [← h.2]
  · split at h
    · split at h
      next ts₂ heat =>
        simp only [Except.bind_eq_ok_iff, Prod.exists] at h
        obtain ⟨schema, ts₃, h₃, _, ts₄, h₄, h⟩ := h
        have l₃ := length_of_expect h₃
        have l₄ := length_of_expect h₄
        simp only [pure, Except.pure, Except.ok.injEq, Prod.mk.injEq] at h
        rw [heat] at l₂
        simp only at l₂
        rw [← h.2]
        omega
      next ts₂ heat =>
        simp only [pure, Except.pure, Except.ok.injEq, Prod.mk.injEq] at h
        rw [heat] at l₂
        simp only at l₂
        rw [← h.2]
        omega
    · simp only [pure, Except.pure, Except.ok.injEq, Prod.mk.injEq] at h
      rwa [← h.2]

/-- Whether a step without brackets around its pipeline may start here: a word
that is no verb. -/
def startsStep : List Token → Bool
  | [] => false
  | t :: _ => match t.kind with
    | .name | .keyword _ => true
    | _ => false

/-- Read the steps of a pipeline after its first, each behind a comma. -/
def moreSteps (stop : Position) (bracketed : Bool) (ts : List Token) :
    Except ParseError (List Step × List Token) :=
  match heat : eat .comma ts with
  | (false, rest) => .ok ([], rest)
  | (true, rest) =>
    if !bracketed && !startsStep rest then .ok ([], ts)
    else if bracketed && (eat .bracketClose rest).1 then .ok ([], rest)
    else
      match hstep : readStep stop rest with
      | .error e => .error e
      | .ok (s, later) =>
        have : later.length < ts.length := by
          have hrest := length_eat_le .comma ts
          have hlater := length_of_readStep hstep
          rw [heat] at hrest
          simp only at hrest
          omega
        match moreSteps stop bracketed later with
        | .error e => .error e
        | .ok (more, last) => .ok (s :: more, last)
termination_by ts.length

/-- Steps that follow leave no more tokens than there were, and as many where no
step follows. -/
theorem length_of_moreSteps {stop : Position} {bracketed : Bool} {steps : List Step}
    {ts rest : List Token} (h : moreSteps stop bracketed ts = .ok (steps, rest)) :
    rest.length ≤ ts.length := by
  fun_induction moreSteps stop bracketed ts generalizing steps rest with
  | case1 ts later heat =>
      have := length_eat_le .comma ts
      simp_all
  | case2 => simp_all
  | case3 ts later heat =>
      have := length_eat_le .comma ts
      simp_all
  | case4 => simp_all
  | case5 => simp_all
  | case6 ts later heat _ _ s after hstep hshorter more last hmore ih =>
      have := ih hmore
      simp only [Except.ok.injEq, Prod.mk.injEq] at h
      rw [← h.2]
      omega

def verb (t : Token) : Option (Verb × Nat) :=
  match t.kind with
  | .verb v => some (v, t.position.line)
  | _ => none

def readRoute (stop : Position) (ts : List Token) : Except ParseError (Route × List Token) := do
  let ((verb, line), ts) ← expect stop .verbOrClose verb ts
  let (path, ts) ← expect stop .routePath string ts
  let (_, ts) ← expectMark stop .arrow ts
  let (bracketed, ts) := eat .bracketOpen ts
  let (first, ts) ← readStep stop ts
  let (more, ts) ← moreSteps stop bracketed ts
  let pipeline := first :: more
  if bracketed then
    let (_, ts) ← expectMark stop .bracketClose ts
    return ({ verb, path, pipeline, line }, ts)
  else return ({ verb, path, pipeline, line }, ts)

theorem length_of_readRoute {stop : Position} {r : Route} {ts rest : List Token}
    (h : readRoute stop ts = .ok (r, rest)) : rest.length < ts.length := by
  simp only [readRoute, Except.bind_eq_ok_iff, Prod.exists] at h
  obtain ⟨v, line, ts₁, h₁, path, ts₂, h₂, _, ts₃, h₃, first, ts₄, h₄, more, ts₅, h₅, h⟩ := h
  have l₁ := length_of_expect h₁
  have l₂ := length_of_expect h₂
  have l₃ := length_of_expect h₃
  have l₄ := length_of_readStep h₄
  have l₅ := length_of_moreSteps h₅
  have le := length_eat_le .bracketOpen ts₃
  split at h
  · simp only [Except.bind_eq_ok_iff, Prod.exists] at h
    obtain ⟨_, ts₆, h₆, h⟩ := h
    have l₆ := length_of_expect h₆
    simp only [pure, Except.pure, Except.ok.injEq, Prod.mk.injEq] at h
    rw [← h.2]
    omega
  · simp only [pure, Except.pure, Except.ok.injEq, Prod.mk.injEq] at h
    rw [← h.2]
    omega

def route (stop : Position) : Rule Route := ⟨readRoute stop, length_of_readRoute⟩

def skipLabel : List Token → List Token
  | [] => []
  | t :: rest => if (wordOrString t).isSome then rest else t :: rest

def routes (stop : Position) (ts : List Token) : Except ParseError (List Route × List Token) := do
  let (_, ts) ← expectMark stop .braceOpen (skipLabel ts)
  (route stop).untilBrace ts

end BlockLang.Parser
