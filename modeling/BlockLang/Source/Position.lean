/-! # Positions in a source

A position is a byte offset together with its line and column, both counted from one; columns
count bytes. Reading bytes moves a position on, and a newline starts the next line.
-/

namespace BlockLang

/-- A byte offset with its line and its byte column, both counted from one. -/
structure Position where
  offset : Nat
  line : Nat
  column : Nat
  deriving DecidableEq, Repr, Inhabited

namespace Position

def start : Position := ⟨0, 1, 1⟩

def next (p : Position) (b : UInt8) : Position :=
  if b = '\n'.toUInt8 then ⟨p.offset + 1, p.line + 1, 1⟩
  else ⟨p.offset + 1, p.line, p.column + 1⟩

def advance (p : Position) (bs : List UInt8) : Position := bs.foldl next p

/-- The position of an offset of a source. Behind its end, it is the position of
the end. -/
def ofOffset (source : List UInt8) (offset : Nat) : Position := start.advance (source.take offset)

theorem advance_append (p : Position) (xs ys : List UInt8) :
    p.advance (xs ++ ys) = (p.advance xs).advance ys :=
  List.foldl_append ..

theorem offset_advance (p : Position) (bs : List UInt8) :
    (p.advance bs).offset = p.offset + bs.length := by
  induction bs generalizing p with
  | nil => rfl
  | cons b rest ih =>
      have hnext : (p.next b).offset = p.offset + 1 := by unfold next; split <;> rfl
      simp only [advance, List.foldl_cons, List.length_cons] at ih ⊢
      rw [ih, hnext]
      omega

end Position

end BlockLang
