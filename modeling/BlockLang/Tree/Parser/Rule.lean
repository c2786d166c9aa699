import BlockLang.Outcomes
import BlockLang.Source.Error

/-! # Parsing rules

A rule reads something from the front of a list of tokens, or says what it expected there. A rule
that reads something uses up at least one token, so rules can be repeated.
-/

namespace BlockLang.Parser

/-- What reading from a list of tokens gives: a result and the tokens after it,
or an error. -/
abbrev Outcome (α : Type) := Except ParseError (α × List Token)

/-- The error of finding these tokens, before the end of the source at
`stop`. -/
def unexpected (stop : Position) (expected : Expectation) : List Token → ParseError
  | [] => ⟨expected, .endOfInput, stop.line, stop.column⟩
  | t :: _ => ⟨expected, .token t.kind t.text, t.position.line, t.position.column⟩

/-- Read one token that `accept` accepts. -/
def expect {α : Type} (stop : Position) (expected : Expectation) (accept : Token → Option α) :
    List Token → Outcome α
  | [] => .error (unexpected stop expected [])
  | t :: rest =>
    match accept t with
    | some a => .ok (a, rest)
    | none => .error (unexpected stop expected (t :: rest))

/-- A token that is read is used up. -/
theorem length_of_expect {α : Type} {stop : Position} {expected : Expectation}
    {accept : Token → Option α} {ts rest : List Token} {a : α}
    (h : expect stop expected accept ts = .ok (a, rest)) : rest.length < ts.length := by
  cases ts with
  | nil => simp [expect] at h
  | cons t later =>
      simp only [expect] at h
      split at h
      · simp only [Except.ok.injEq, Prod.mk.injEq] at h
        simp [h.2]
      · simp at h

def word (t : Token) : Option String := if t.kind.isWord then some t.text else none

def string (t : Token) : Option String := if t.kind = .string then some t.text else none

def wordOrString (t : Token) : Option String := word t <|> string t

def isMark (m : Mark) (t : Token) : Bool := t.kind = .mark m

def expectMark (stop : Position) (m : Mark) (ts : List Token) : Outcome Unit :=
  expect stop (.mark m) (fun t => if isMark m t then some () else none) ts

/-- Whether the first token is a mark, and the tokens after that mark. -/
def eat (m : Mark) (ts : List Token) : Bool × List Token :=
  match ts with
  | [] => (false, [])
  | t :: rest => if isMark m t then (true, rest) else (false, t :: rest)

theorem length_eat_le (m : Mark) (ts : List Token) : (eat m ts).2.length ≤ ts.length := by
  unfold eat
  split
  · simp
  · split <;> simp

def skipCommas (ts : List Token) : List Token := ts.dropWhile (isMark .comma)

theorem length_skipCommas_le (ts : List Token) : (skipCommas ts).length ≤ ts.length :=
  (List.dropWhile_sublist _).length_le

/-- A rule: a reader that uses up at least one token. Repeating it therefore
comes to an end. -/
structure Rule (α : Type) where
  read : List Token → Outcome α
  progress : ∀ {ts : List Token} {a : α} {rest : List Token},
    read ts = .ok (a, rest) → rest.length < ts.length

theorem Rule.length_of_read {α : Type} (item : Rule α) {m : Mark} {ate : Bool} {a : α}
    {ts rest later : List Token} (heat : eat m (skipCommas ts) = (ate, rest))
    (hitem : item.read rest = .ok (a, later)) : later.length < ts.length := by
  have hlater := item.progress hitem
  have hrest := length_eat_le m (skipCommas ts)
  have hcommas := length_skipCommas_le ts
  rw [heat] at hrest
  simp only at hrest
  omega

/-- Read what the rule reads, any number of times with any commas between, up to
a closing brace. -/
def Rule.untilBrace {α : Type} (item : Rule α) (ts : List Token) : Outcome (List α) :=
  match heat : eat .braceClose (skipCommas ts) with
  | (true, rest) => .ok ([], rest)
  | (false, rest) =>
    match hitem : item.read rest with
    | .error e => .error e
    | .ok (a, later) =>
      have := item.length_of_read heat hitem
      match item.untilBrace later with
      | .error e => .error e
      | .ok (more, last) => .ok (a :: more, last)
termination_by ts.length

end BlockLang.Parser
