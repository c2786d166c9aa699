import BlockLang.Proofs.Lists
import BlockLang.Proofs.Locality
import Mathlib.Data.List.Infix

/-! # Blanks and comments

Between tokens a source may have blanks and comments. Filler is a stretch of them that begins with a
blank, so it joins nothing that stands before it. In front of a token it makes no tokens, leaves the
tokens before it as they are, and moves the others.
-/

namespace BlockLang

/-! ## Blanks and comments -/

namespace Scan

/-- Bytes that are blanks, whole block comments, and line comments with their
newlines. -/
inductive Layout : List UInt8 → Prop
  | nil : Layout []
  | blank {b : UInt8} {rest : List UInt8} (hb : isBlank b = true) (h : Layout rest) :
      Layout (b :: rest)
  | blockComment {inside rest : List UInt8}
      (hinside : ¬ ['*'.toUInt8, '/'.toUInt8] <:+: inside) (h : Layout rest) :
      Layout ('/'.toUInt8 :: '*'.toUInt8 :: (inside ++ '*'.toUInt8 :: '/'.toUInt8 :: rest))
  | lineComment {inside rest : List UInt8} (hinside : '\n'.toUInt8 ∉ inside) (h : Layout rest) :
      Layout ('/'.toUInt8 :: '/'.toUInt8 :: (inside ++ '\n'.toUInt8 :: rest))

/-- Layout that begins with a blank, so that it joins nothing that stands before
it: no word grows longer, and no slash turns into a comment. -/
def Filler (w : List UInt8) : Prop := ∃ b rest, w = b :: rest ∧ isBlank b = true ∧ Layout rest

theorem tokensFrom_length (p : Position) (xs ys : List UInt8) :
    tokensFrom p xs.length (xs ++ ys) = tokensFrom (p.advance xs) 0 ys := by
  induction xs generalizing p with
  | nil => rfl
  | cons x xs ih => exact ih (p.next x)

/-- A comment is over at the first mark that closes it. -/
theorem toCommentEnd_of_not_infix {inside : List UInt8}
    (h : ¬ ['*'.toUInt8, '/'.toUInt8] <:+: inside) (rest : List UInt8) :
    toCommentEnd (inside ++ '*'.toUInt8 :: '/'.toUInt8 :: rest) = inside.length + 2 := by
  have hstar : ¬ '*'.toUInt8 = '/'.toUInt8 := by decide
  induction inside with
  | nil => simp [toCommentEnd]
  | cons a inside ih =>
      have hinside := ih fun hinfix => h (List.infix_cons hinfix)
      cases inside with
      | nil =>
          simp only [List.nil_append, List.cons_append] at hinside ⊢
          rw [toCommentEnd, if_neg (by simp [hstar]), hinside]
          rfl
      | cons b inside =>
          have hpair : ¬ (a = '*'.toUInt8 ∧ b = '/'.toUInt8) := by
            rintro ⟨rfl, rfl⟩
            exact h ⟨[], inside, rfl⟩
          simp only [List.cons_append] at hinside ⊢
          rw [toCommentEnd, if_neg hpair, hinside]
          rfl

theorem toLineEnd_of_notMem {inside : List UInt8} (h : '\n'.toUInt8 ∉ inside) (rest : List UInt8) :
    toLineEnd (inside ++ '\n'.toUInt8 :: rest) = inside.length := by
  rw [toLineEnd, List.takeWhile_append_of_pos, List.takeWhile_cons_of_neg (by decide),
    List.append_nil]
  intro b hb
  have hne : b ≠ '\n'.toUInt8 := by
    rintro rfl
    exact h hb
  simpa using hne

/-- A chunk that is no token is passed over, and what follows it is read on its
own. -/
theorem tokensFrom_skip {b : UInt8} (xs : List UInt8) {rest ys : List UInt8}
    (hread : Chunk.read b (xs ++ (rest ++ ys)) = .skip xs.length)
    (hrest : ∀ q, tokensFrom q 0 (rest ++ ys) = tokensFrom (q.advance rest) 0 ys) (p : Position) :
    tokensFrom p 0 (b :: (xs ++ rest) ++ ys) = tokensFrom (p.advance (b :: (xs ++ rest))) 0 ys := by
  rw [List.cons_append, List.append_assoc]
  simp only [tokensFrom, hread, Chunk.skip]
  rw [tokensFrom_length, hrest, Position.advance_cons, Position.advance_append]

/-- Layout makes no tokens, and the tokens behind it are those that stand there
by themselves, further on. -/
theorem tokensFrom_layout {w : List UInt8} (h : Layout w) (p : Position) (ys : List UInt8) :
    tokensFrom p 0 (w ++ ys) = tokensFrom (p.advance w) 0 ys := by
  induction h generalizing p with
  | nil => rfl
  | blank hb _ ih => exact tokensFrom_skip [] (read_blank hb _) ih p
  | @blockComment inside rest hinside _ ih =>
      have hsplit : '*'.toUInt8 :: (inside ++ '*'.toUInt8 :: '/'.toUInt8 :: rest) =
          '*'.toUInt8 :: (inside ++ ['*'.toUInt8, '/'.toUInt8]) ++ rest := by simp
      rw [hsplit]
      refine tokensFrom_skip _ ?_ ih p
      have hcomment : ∀ tail, Chunk.read '/'.toUInt8 ('*'.toUInt8 :: tail) =
          .skip (1 + toCommentEnd tail) := fun _ => rfl
      rw [List.cons_append, List.append_assoc, List.cons_append, List.cons_append, List.nil_append,
        hcomment, toCommentEnd_of_not_infix hinside, List.length_cons, List.length_append,
        Nat.add_comm]
      rfl
  | @lineComment inside rest hinside _ ih =>
      have hsplit : '/'.toUInt8 :: (inside ++ '\n'.toUInt8 :: rest) =
          '/'.toUInt8 :: inside ++ '\n'.toUInt8 :: rest := rfl
      have hcomment : ∀ tail, Chunk.read '/'.toUInt8 ('/'.toUInt8 :: tail) =
          .skip (toLineEnd ('/'.toUInt8 :: tail)) := fun _ => rfl
      have hslash : '\n'.toUInt8 ∉ '/'.toUInt8 :: inside := by
        rw [List.mem_cons, not_or]
        exact ⟨by decide, hinside⟩
      rw [hsplit]
      refine tokensFrom_skip _ ?_ ?_ p
      · exact (hcomment _).trans (congrArg Chunk.skip (toLineEnd_of_notMem hslash (rest ++ ys)))
      · exact tokensFrom_skip [] (read_blank rfl _) ih

/-- Bytes of characters that take several are skipped one by one. -/
theorem read_of_le {b : UInt8} (hb : 128 ≤ b) (rest : List UInt8) :
    Chunk.read b rest = .skip 0 := by
  have hlt : ∀ x < 128, ¬ b ≤ x := by
    intro x hx hle
    exact UInt8.not_lt.mpr (UInt8.le_trans hb hle) hx
  have hne : ∀ x < 128, b ≠ x := by
    rintro x hx rfl
    exact hlt b hx UInt8.le_rfl
  have hdigit : isDigit b = false := by simp [isDigit, hlt _ (by decide : '9'.toUInt8 < 128)]
  have hword : isWordStart b = false := by
    simp [isWordStart, hlt _ (by decide : 'z'.toUInt8 < 128),
      hlt _ (by decide : 'Z'.toUInt8 < 128), hne _ (by decide : '_'.toUInt8 < 128)]
  have hmark : markOf? b = none := by
    unfold markOf?
    iterate 10 rw [if_neg (hne _ (by decide))]
  simp only [Chunk.read, hne _ (by decide : '/'.toUInt8 < 128),
    hne _ (by decide : '='.toUInt8 < 128), hne _ (by decide : '"'.toUInt8 < 128),
    hne _ (by decide : '-'.toUInt8 < 128), hdigit, hword, hmark, false_and, if_false,
    Bool.false_eq_true, or_self]

theorem Filler.layout {w : List UInt8} (h : Filler w) : Layout w := by
  obtain ⟨b, rest, rfl, hb, hrest⟩ := h
  exact .blank hb hrest

end Scan

/-! ## Tokens around an insertion -/

namespace Tokens

/-- A token starts with a byte that is not skipped, so blanks and the bytes of
longer characters start none. -/
theorem exists_drop_of_token {source : List UInt8} {m : Nat} {before after : List Token} {t : Token}
    (h : (behind source m).items = before ++ t :: after) :
    ∃ c rest, source.drop t.position.offset = c :: rest ∧ Scan.Chunk.read c rest ≠ .skip 0 := by
  obtain ⟨-, hlt, hposition, hitems⟩ := behind_of_mem h
  cases hdrop : source.drop t.position.offset with
  | nil =>
      rw [List.drop_eq_nil_iff] at hdrop
      omega
  | cons c rest =>
      refine ⟨c, rest, rfl, ?_⟩
      have hscan : Scan.tokensFrom (Position.ofOffset source t.position.offset) 0
          ([] ++ c :: rest) = [] ++ t :: after := by
        rw [List.nil_append, ← hdrop]
        exact hitems
      refine Scan.read_ne_skip_of_token hscan ?_
      rw [← hposition]
      rfl

section

variable {start tail w : List UInt8} (hw : Scan.Filler w)

/-- Up to a token in whose place a blank is put, tokens stay as they are: a
blank ends whatever the token itself has ended. -/
theorem alikeBefore_blank {b : UInt8} (hb : Scan.isBlank b = true) (rest : List UInt8) :
    AlikeBefore (start ++ tail) (start ++ b :: rest) (start.length + 1) where
  take := by
    rw [Nat.add_sub_cancel, List.take_left, List.take_left]
  tokens := by
    intro m before after t h hlt
    rcases Nat.lt_succ_iff_lt_or_eq.mp hlt with hbefore | hhere
    · have htake : (start ++ tail).take start.length = (start ++ b :: rest).take start.length := by
        rw [List.take_left, List.take_left]
      exact behind_local htake h hbefore
    · obtain ⟨c, tail, hdrop, hread⟩ := exists_drop_of_token h
      rw [hhere, List.drop_left] at hdrop
      subst hdrop
      have hc : c ≠ '\n'.toUInt8 := by
        rintro rfl
        exact hread (Scan.read_blank rfl tail)
      exact behind_endsLike (.of_isBlank hc hb) h hhere rest

include hw

/-- Up to the token in front of which filler is put, tokens stay as they are,
since filler begins with a blank. -/
theorem alikeBefore_insert :
    AlikeBefore (start ++ tail) (start ++ (w ++ tail)) (start.length + 1) := by
  obtain ⟨b, rest, rfl, hb, -⟩ := hw
  exact alikeBefore_blank hb (rest ++ tail)

theorem behind_filler :
    (behind (start ++ (w ++ tail)) start.length).items =
      (behind (start ++ (w ++ tail)) (start.length + w.length)).items := by
  have hposition : Position.ofOffset (start ++ (w ++ tail)) (start.length + w.length) =
      (Position.ofOffset (start ++ (w ++ tail)) start.length).advance w := by
    rw [← Position.advance_ofOffset, List.drop_left, List.take_left]
  simp only [behind, scan, hposition, List.drop_left]
  rw [Scan.tokensFrom_layout hw.layout, ← List.drop_insert, List.drop_left]

/-- The tokens from the insertion on move, those before it stay, and no token is
added or lost. -/
theorem behind_insert {m : Nat} {before after : List Token} {u : Token}
    (h : (behind (start ++ tail) m).items = before ++ u :: after)
    (hu : u.position.offset = start.length) :
    (behind (start ++ (w ++ tail)) m).items = before ++
      (u :: after).map (Token.moved (start ++ tail) start.length (start ++ (w ++ tail))
        (start.length + w.length)) := by
  obtain ⟨-, -, -, hitems⟩ := behind_of_mem h
  have hmoved := behind_moved (List.drop_insert start w tail) 0
  rw [(alikeBefore_insert hw).tokens h (by omega), hu, behind_filler hw]
  rw [hu] at hitems
  rw [← hitems]
  exact congrArg (before ++ ·) hmoved

end

end Tokens

end BlockLang
