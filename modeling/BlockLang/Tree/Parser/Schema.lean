import BlockLang.Text.Blank
import BlockLang.Tree.Basic
import BlockLang.Tree.Parser.Rule

/-! # Reading schemas

A schema is a name and fields between braces. A field has a type and may have arguments: values
under a key, and values without one, which together restrict the field to themselves.
-/

namespace BlockLang.Parser

/-- The value of an argument: a number if it reads as a finite one, else its
text. -/
def argumentOf (text : String) : Argument :=
  match Decimal.readFinite? (Text.trim text) with
  | some value => .number value
  | none => .text text

def isArgumentValue (t : Token) : Bool :=
  t.kind.isWord || t.kind = .string || t.kind = .number

/-- The arguments under a key, with the values that have none added last. -/
def withVariants (keyed : Arguments) (variants : List String) : Arguments :=
  if variants.isEmpty then keyed else keyed.insert enumKey (.list variants)

/-- Read arguments up to the closing parenthesis. A word is a key if a colon
follows, and else a value; commas and pipes may stand anywhere. -/
def arguments (stop : Position) (keyed : Arguments) (variants : List String) :
    List Token → Outcome Arguments
  | [] => .error (unexpected stop .argumentOrClose [])
  | t :: rest =>
    if isMark .parenClose t then .ok (withVariants keyed variants, rest)
    else if isMark .comma t ∨ isMark .pipe t then arguments stop keyed variants rest
    else if t.kind = .string ∨ t.kind = .number then
      arguments stop keyed (variants ++ [t.text]) rest
    else if t.kind.isWord then
      match rest with
      | [] => .error (unexpected stop .argumentOrClose [])
      | colon :: afterColon =>
        if isMark .colon colon then
          match afterColon with
          | [] => .error (unexpected stop .argumentValue [])
          | value :: later =>
            if isArgumentValue value then
              arguments stop (keyed.insert t.text (argumentOf value.text)) variants later
            else .error (unexpected stop .argumentValue (value :: later))
        else arguments stop keyed (variants ++ [t.text]) (colon :: afterColon)
    else .error (unexpected stop .argumentOrClose (t :: rest))

theorem length_of_arguments {stop : Position} {keyed found : Arguments} {variants : List String}
    {ts rest : List Token} (h : arguments stop keyed variants ts = .ok (found, rest)) :
    rest.length < ts.length := by
  fun_induction arguments stop keyed variants ts <;> simp_all <;> grind

def optionalArguments (stop : Position) (ts : List Token) : Outcome Arguments :=
  match eat .parenOpen ts with
  | (true, rest) => arguments stop [] [] rest
  | (false, rest) => .ok ([], rest)

theorem length_of_optionalArguments {stop : Position} {found : Arguments} {ts rest : List Token}
    (h : optionalArguments stop ts = .ok (found, rest)) : rest.length ≤ ts.length := by
  have heats := length_eat_le .parenOpen ts
  unfold optionalArguments at h
  split at h
  next later heat =>
    rw [heat] at heats
    have := length_of_arguments h
    simp only at heats
    omega
  next later heat =>
    rw [heat] at heats
    simp only [Except.ok.injEq, Prod.mk.injEq] at h
    rw [← h.2]
    exact heats

def readField (stop : Position) (ts : List Token) : Except ParseError (Field × List Token) := do
  let (name, ts) ← expect stop .fieldOrClose word ts
  let (_, ts) ← expectMark stop .colon ts
  let (typeName, ts) ← expect stop .typeName word ts
  let (arguments, ts) ← optionalArguments stop ts
  let (optional, ts) := eat .question ts
  return ({ name, typeName, optional, arguments }, ts)

theorem length_of_readField {stop : Position} {f : Field} {ts rest : List Token}
    (h : readField stop ts = .ok (f, rest)) : rest.length < ts.length := by
  simp only [readField, Except.bind_eq_ok_iff, Prod.exists] at h
  obtain ⟨name, ts₁, h₁, _, ts₂, h₂, typeName, ts₃, h₃, arguments, ts₄, h₄, h⟩ := h
  have l₁ := length_of_expect h₁
  have l₂ := length_of_expect h₂
  have l₃ := length_of_expect h₃
  have l₄ := length_of_optionalArguments h₄
  have l₅ := length_eat_le .question ts₄
  simp only [pure, Except.pure, Except.ok.injEq, Prod.mk.injEq] at h
  rw [h.2] at l₅
  omega

def field (stop : Position) : Rule Field := ⟨readField stop, length_of_readField⟩

def schema (stop : Position) (line : Nat) (ts : List Token) :
    Except ParseError (Schema × List Token) := do
  let (name, ts) ← expect stop .schemaName word ts
  let (_, ts) ← expectMark stop .braceOpen ts
  let (fields, ts) ← (field stop).untilBrace ts
  return ({ name, fields, line }, ts)

end BlockLang.Parser
