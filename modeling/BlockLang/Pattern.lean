import BlockLang.Code.Literal
import BlockLang.Pattern.Meaning
import BlockLang.Pattern.Portable

/-! # Patterns for texts

A pattern is enforced in two places: here by its expression, and in generated code by its source
and flags.
-/

namespace BlockLang

/-- A pattern that texts can be tested against, in both of the places where it
is enforced. -/
structure Pattern where
  /-- The pattern without its leading flags. -/
  source : String
  flags : String
  expr : Pattern.Expr
  deriving DecidableEq, Repr

namespace Pattern

/-- The pattern that a text stands for. What is portable is decided without
reading the text as a pattern, and first, so that its error is the one
reported. -/
def ofText (text : String) : Except Fault Pattern :=
  let (flags, body) := splitFlags text.toList
  match portabilityFault? false body with
  | some fault => .error fault
  | none =>
    match Expr.read? text with
    | some expr => .ok ⟨String.ofList body, String.ofList flags, expr⟩
    | none => .error .malformed

/-- A text is a pattern exactly if nothing in it fails to be portable and it is
read as an expression. -/
theorem ofText_eq_ok_iff {text : String} {p : Pattern} :
    ofText text = .ok p ↔
      portabilityFault? false (splitFlags text.toList).2 = none ∧
        Expr.read? text = some p.expr ∧
          p.flags = String.ofList (splitFlags text.toList).1 ∧
            p.source = String.ofList (splitFlags text.toList).2 := by
  obtain ⟨source, flags, expr⟩ := p
  simp only [ofText]
  cases portabilityFault? false (splitFlags text.toList).2 with
  | some fault => simp
  | none =>
      cases Expr.read? text with
      | none => simp
      | some e =>
          simp only [Except.ok.injEq, Pattern.mk.injEq, Option.some.injEq, true_and]
          constructor
          · rintro ⟨rfl, rfl, rfl⟩
            exact ⟨rfl, rfl, rfl⟩
          · rintro ⟨rfl, rfl, rfl⟩
            exact ⟨rfl, rfl, rfl⟩

/-- Whether a text has a stretch that the pattern matches. -/
def matchesIn (p : Pattern) (text : String) : Bool := p.expr.matchesIn text

def constructor (p : Pattern) : String :=
  if p.flags.isEmpty then "new RegExp(" ++ Code.string p.source ++ ")"
  else "new RegExp(" ++ Code.string p.source ++ ", " ++ Code.string p.flags ++ ")"

end Pattern

end BlockLang
