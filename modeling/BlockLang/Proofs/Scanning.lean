import BlockLang.Source.Scan
import Mathlib.Data.List.Basic
import Mathlib.Data.List.Induction

/-! # Tokenizing from the middle of a source

Tokenizing can start again at any token and at the end of any chunk, because a chunk is settled
by its own bytes and what directly follows them. So the tokens up to some point do not depend on
what stands further on, and the tokens behind some point depend on what stands before only through
their positions.
-/

namespace BlockLang

namespace Position

theorem advance_cons (p : Position) (b : UInt8) (rest : List UInt8) :
    p.advance (b :: rest) = (p.next b).advance rest := rfl

theorem offset_next (p : Position) (b : UInt8) : (p.next b).offset = p.offset + 1 :=
  p.offset_advance [b]

theorem offset_ofOffset {source : List UInt8} {offset : Nat} (h : offset ≤ source.length) :
    (ofOffset source offset).offset = offset := by
  rw [ofOffset, offset_advance, List.length_take_of_le h]
  exact Nat.zero_add offset

/-- A position is reached from an earlier one by the bytes between them, so
positions can be counted from anywhere. -/
theorem advance_ofOffset (source : List UInt8) (offset size : Nat) :
    (ofOffset source offset).advance ((source.drop offset).take size) =
      ofOffset source (offset + size) := by
  rw [ofOffset, ofOffset, ← advance_append, List.take_add]

/-- Whether a position is reached from another one by reading bytes. -/
structure Follows (base p : Position) : Prop where
  offset : base.offset ≤ p.offset
  line : base.line ≤ p.line
  column : p.line = base.line → base.column ≤ p.column

theorem Follows.refl (p : Position) : Follows p p where
  offset := Nat.le_refl _
  line := Nat.le_refl _
  column := fun _ => Nat.le_refl _

theorem Follows.next {base p : Position} (h : Follows base p) (b : UInt8) :
    Follows base (p.next b) := by
  obtain ⟨hoffset, hline, hcolumn⟩ := h
  unfold Position.next
  split
  · refine ⟨?_, ?_, ?_⟩ <;> simp only <;> omega
  · refine ⟨?_, hline, ?_⟩
    · simp only
      omega
    · intro heq
      have hle := hcolumn heq
      simp only
      omega

/-- A position counted from `base`, counted from another position instead. Its
column changes on the line of `base` only. -/
def rebase (base base' p : Position) : Position where
  offset := p.offset + base'.offset - base.offset
  line := p.line + base'.line - base.line
  column := if p.line = base.line then p.column + base'.column - base.column else p.column

theorem rebase_self (base base' : Position) : rebase base base' base = base' := by
  simp [rebase]

/-- Counting one more byte and counting from elsewhere can be done in either
order. -/
theorem rebase_next {base p : Position} (base' : Position) (h : Follows base p) (b : UInt8) :
    rebase base base' (p.next b) = (rebase base base' p).next b := by
  obtain ⟨hoffset, hline, hcolumn⟩ := h
  unfold Position.next
  split
  · have hne : p.line + 1 ≠ base.line := by omega
    simp only [rebase, if_neg hne, Position.mk.injEq, and_true]
    omega
  · simp only [rebase, Position.mk.injEq, true_and]
    by_cases heq : p.line = base.line
    · have hle := hcolumn heq
      simp only [if_pos heq]
      omega
    · simp only [if_neg heq, and_true]
      omega

end Position

def Token.rebase (base base' : Position) (t : Token) : Token :=
  { t with position := base.rebase base' t.position }

namespace Scan

/-- No token starts before the place where the reading of tokens began. -/
theorem offset_le_of_mem {p : Position} {skip : Nat} {bs : List UInt8} {t : Token}
    (ht : t ∈ tokensFrom p skip bs) : p.offset + skip ≤ t.position.offset := by
  induction bs generalizing p skip with
  | nil => cases ht
  | cons b rest ih =>
      have hnext := p.offset_next b
      cases skip with
      | succ left =>
          have hle := ih ht
          omega
      | zero =>
          simp only [tokensFrom] at ht
          split at ht
          next kind text _ =>
            rcases List.mem_cons.mp ht with rfl | hmem
            · exact Nat.le_refl _
            · have hle := ih hmem
              omega
          next =>
            have hle := ih ht
            omega

/-- Tokens stand in the order of their offsets, and no two of them start at one
place. -/
theorem tokensFrom_pairwise (p : Position) (skip : Nat) (bs : List UInt8) :
    (tokensFrom p skip bs).Pairwise fun t u => t.position.offset < u.position.offset := by
  induction bs generalizing p skip with
  | nil => exact List.Pairwise.nil
  | cons b rest ih =>
      cases skip with
      | succ left => exact ih _ _
      | zero =>
          simp only [tokensFrom]
          split
          next kind text _ =>
            refine List.pairwise_cons.mpr ⟨?_, ih _ _⟩
            intro u hu
            have hle := offset_le_of_mem hu
            have hnext := p.offset_next b
            simp only
            omega
          next => exact ih _ _

/-- Tokenizing again from a token on gives the same tokens, so what comes before
a token has no influence on what comes behind it. -/
theorem resume {p : Position} {skip : Nat} {bs : List UInt8} {before after : List Token}
    {t : Token} (h : tokensFrom p skip bs = before ++ t :: after) :
    ∃ size, size < bs.length ∧ t.position = p.advance (bs.take size) ∧
      t :: after = tokensFrom t.position 0 (bs.drop size) := by
  induction bs generalizing p skip before with
  | nil => simp [tokensFrom] at h
  | cons b rest ih =>
      -- Where `t` is not the first token, it is one of the tokens behind `b`.
      have later : ∀ {skip : Nat} {before : List Token},
          tokensFrom (p.next b) skip rest = before ++ t :: after →
          ∃ size, size < (b :: rest).length ∧ t.position = p.advance ((b :: rest).take size) ∧
            t :: after = tokensFrom t.position 0 ((b :: rest).drop size) := by
        intro skip before h
        obtain ⟨size, hlt, hposition, hafter⟩ := ih h
        exact ⟨size + 1, Nat.succ_lt_succ hlt, hposition, hafter⟩
      cases skip with
      | succ left => exact later h
      | zero =>
          have hfirst := h
          simp only [tokensFrom] at h
          split at h
          next kind text _ =>
            cases before with
            | nil =>
                obtain ⟨rfl, _⟩ := List.cons.inj h
                exact ⟨0, Nat.succ_pos _, rfl, hfirst.symm⟩
            | cons first before => exact later (List.cons.inj h).2
          next => exact later h

section Locality

variable {xs ys : List UInt8} {c d : UInt8}

/-- What is taken up to some byte depends on nothing behind it, and not even on
this byte if another one would end it as well. -/
theorem takeWhile_local {p : UInt8 → Bool} (hd : p c = false → p d = false) (zs : List UInt8)
    (h : ((xs ++ c :: ys).takeWhile p).length ≤ xs.length) :
    (xs ++ d :: zs).takeWhile p = (xs ++ c :: ys).takeWhile p := by
  induction xs with
  | nil =>
      by_cases hc : p c = true
      · simp [hc] at h
      · have hc : p c = false := by simpa using hc
        simp [hc, hd hc]
  | cons a rest ih =>
      by_cases ha : p a = true
      · simp only [List.cons_append, List.takeWhile_cons, ha, if_true, List.length_cons,
          Nat.add_le_add_iff_right] at h ⊢
        rw [ih h]
      · simp [ha]

theorem toCommentEnd_pos (b : UInt8) (rest : List UInt8) : 0 < toCommentEnd (b :: rest) := by
  cases rest with
  | nil => exact Nat.one_pos
  | cons a rest =>
      simp only [toCommentEnd]
      split
      · exact Nat.two_pos
      · exact Nat.succ_pos _

/-- A comment that is closed before some byte is closed there whatever
follows. -/
theorem toCommentEnd_local (zs : List UInt8) (h : toCommentEnd (xs ++ c :: ys) ≤ xs.length) :
    toCommentEnd (xs ++ d :: zs) = toCommentEnd (xs ++ c :: ys) := by
  induction xs with
  | nil => exact absurd (toCommentEnd_pos c ys) (Nat.not_lt.mpr h)
  | cons a rest ih =>
      cases rest with
      | nil =>
          have hpos := toCommentEnd_pos c ys
          simp only [List.cons_append, List.nil_append, toCommentEnd, List.length_singleton] at h
          split at h <;> omega
      | cons a' rest =>
          simp only [List.cons_append, toCommentEnd, List.length_cons] at h ih ⊢
          split
          · rfl
          next hend =>
            rw [if_neg hend] at h
            rw [ih (by omega)]

theorem size_cons (b : UInt8) (taken : Nat) (q : Quotation) :
    (q.cons b taken).size = taken + q.size := rfl

/-- Only a newline ends a string before its first byte. -/
theorem quotation_size_pos {b : UInt8} (hb : b ≠ '\n'.toUInt8) (rest : List UInt8) :
    0 < (quotation (b :: rest)).size := by
  unfold quotation
  split_ifs
  · exact Nat.one_pos
  · cases rest with
    | nil => exact Nat.one_pos
    | cons a rest =>
        simp only
        split_ifs
        · exact Nat.one_pos
        · simp only [size_cons]
          omega
  · simp only [size_cons]
    omega

theorem quotation_newline (rest : List UInt8) :
    quotation ('\n'.toUInt8 :: rest) = ⟨[], 0, false⟩ := by
  unfold quotation
  rfl

/-- A string that ends before some byte has been closed, or is ended by this
byte as a newline. -/
theorem quotation_local (hd : c = '\n'.toUInt8 → d = '\n'.toUInt8) (zs : List UInt8)
    (h : (quotation (xs ++ c :: ys)).size ≤ xs.length) :
    quotation (xs ++ d :: zs) = quotation (xs ++ c :: ys) := by
  -- An escape passes two bytes at once.
  induction xs using List.twoStepInduction with
  | nil =>
      by_cases hc : c = '\n'.toUInt8
      · simp only [List.nil_append, hd hc, hc, quotation_newline]
      · exact absurd (quotation_size_pos hc ys) (Nat.not_lt.mpr h)
  | singleton a =>
      simp only [List.cons_append, List.nil_append, List.length_singleton] at h ⊢
      unfold quotation at h ⊢
      split_ifs at h ⊢ with hquote hnewline hescape
      · rfl
      · rfl
      · by_cases hc : c = '\n'.toUInt8
        · simp only [hd hc, hc, if_true]
        · simp only [hc, if_false, size_cons] at h
          omega
      · by_cases hc : c = '\n'.toUInt8
        · rw [hd hc, hc, quotation_newline, quotation_newline]
        · have hpos := quotation_size_pos hc ys
          simp only [size_cons] at h
          omega
  | cons_cons a a' rest ih ih' =>
      simp only [List.cons_append, List.length_cons] at h ih' ⊢
      unfold quotation at h ⊢
      split_ifs at h ⊢ with hquote hnewline hescape
      · rfl
      · rfl
      · simp only at h ⊢
        split_ifs at h ⊢ with hc
        · rfl
        · simp only [size_cons] at h
          rw [ih (by omega)]
      · simp only [size_cons] at h
        rw [ih' a' (by omega)]

/-- A number that ends before some byte ends there before other bytes that are
no digits. -/
theorem toNumberEnd_local (hd : isDigit c = false → isDigit d = false) (zs : List UInt8)
    (hc : c ≠ '.'.toUInt8) (hpoint : d ≠ '.'.toUInt8)
    (h : toNumberEnd (xs ++ c :: ys) ≤ xs.length) :
    toNumberEnd (xs ++ d :: zs) = toNumberEnd (xs ++ c :: ys) := by
  have hwhole : ((xs ++ c :: ys).takeWhile isDigit).length ≤ xs.length := by
    refine Nat.le_trans ?_ h
    simp only [toNumberEnd]
    split
    · split <;> omega
    · exact Nat.le_refl _
  simp only [toNumberEnd, takeWhile_local hd zs hwhole, List.drop_append_of_le_length hwhole]
    at h ⊢
  cases hdrop : xs.drop ((xs ++ c :: ys).takeWhile isDigit).length with
  | nil => simp [hc, hpoint]
  | cons point rest =>
      simp only [hdrop, List.cons_append] at h ⊢
      have hlength := congrArg List.length hdrop
      simp only [List.length_drop, List.length_cons] at hlength
      by_cases hpoint : point = '.'.toUInt8
      · have hfraction : ((rest ++ c :: ys).takeWhile isDigit).length ≤ rest.length := by
          simp only [hpoint, true_and] at h
          split at h <;> omega
        rw [takeWhile_local hd zs hfraction]
      · simp [hpoint]

def isBlank (b : UInt8) : Bool :=
  b == ' '.toUInt8 || b == '\t'.toUInt8 || b == '\r'.toUInt8 || b == '\n'.toUInt8

theorem isBlank_iff {b : UInt8} : isBlank b = true ↔
    b = ' '.toUInt8 ∨ b = '\t'.toUInt8 ∨ b = '\r'.toUInt8 ∨ b = '\n'.toUInt8 := by
  simp [isBlank, or_assoc]

/-- Whether a chunk that ends before one byte also ends before another byte in
its place. -/
structure EndsLike (c d : UInt8) : Prop where
  newline : c = '\n'.toUInt8 → d = '\n'.toUInt8
  digit : isDigit c = false → isDigit d = false
  wordPart : isWordPart c = false → isWordPart d = false
  joint : ∀ x ∈ ['/'.toUInt8, '*'.toUInt8, '>'.toUInt8, '.'.toUInt8], d = x → c = x

theorem EndsLike.refl (c : UInt8) : EndsLike c c := ⟨id, id, id, fun _ _ => id⟩

/-- Chunks end before a blank, but only a newline ends all that a newline
ends. -/
theorem EndsLike.of_isBlank (hc : c ≠ '\n'.toUInt8) (hd : isBlank d = true) : EndsLike c d := by
  have hends : isDigit d = false ∧ isWordPart d = false ∧
      d ∉ ['/'.toUInt8, '*'.toUInt8, '>'.toUInt8, '.'.toUInt8] := by
    rcases isBlank_iff.mp hd with rfl | rfl | rfl | rfl <;> decide
  refine ⟨fun h => absurd h hc, fun _ => hends.1, fun _ => hends.2.1, ?_⟩
  rintro x hx rfl
  exact absurd hx hends.2.2

theorem more_pos {b : UInt8} (rest : List UInt8)
    (h : b = '/'.toUInt8 ∧ c = '/'.toUInt8 ∨ b = '/'.toUInt8 ∧ c = '*'.toUInt8 ∨
      b = '='.toUInt8 ∧ c = '>'.toUInt8 ∨ b = '-'.toUInt8 ∧ isDigit c = true) :
    0 < (Chunk.read b (c :: rest)).more := by
  rcases h with ⟨rfl, rfl⟩ | ⟨rfl, rfl⟩ | ⟨rfl, rfl⟩ | ⟨rfl, hc⟩
  · have hline : Chunk.read '/'.toUInt8 ('/'.toUInt8 :: rest) =
        .skip (toLineEnd ('/'.toUInt8 :: rest)) := rfl
    rw [hline, Chunk.skip, toLineEnd, List.takeWhile_cons_of_pos (by decide)]
    exact Nat.succ_pos _
  · have hblock : Chunk.read '/'.toUInt8 ('*'.toUInt8 :: rest) =
        .skip (1 + toCommentEnd rest) := rfl
    rw [hblock, Chunk.skip]
    exact Nat.add_pos_left Nat.one_pos _
  · exact Nat.one_pos
  · have hnumber : Chunk.read '-'.toUInt8 (c :: rest) =
        .verbatim (fun _ => .number) '-'.toUInt8 (c :: rest) (toNumberEnd (c :: rest)) := by
      simp only [Chunk.read, List.head?_cons, Option.any_some, hc]
      rfl
    rw [hnumber, Chunk.verbatim, toNumberEnd, List.takeWhile_cons_of_pos hc, List.length_cons]
    simp only
    split
    · split <;> omega
    · omega

/-- Looking ahead of a chunk that ends before some byte finds what it would find
in its place. -/
theorem lookahead_local {a b : UInt8} {Q : Option UInt8 → Prop} (hQ : Q (some d) → Q (some c))
    (hpos : b = a ∧ Q (some c) → 0 < (Chunk.read b (c :: ys)).more)
    (h : (Chunk.read b (xs ++ c :: ys)).more ≤ xs.length) (zs : List UInt8) :
    b = a ∧ Q (xs ++ d :: zs).head? ↔ b = a ∧ Q (xs ++ c :: ys).head? := by
  cases xs with
  | cons x xs => exact Iff.rfl
  | nil =>
      constructor
      · rintro ⟨hb, hd⟩
        exact ⟨hb, hQ hd⟩
      · rintro ⟨hb, hc⟩
        exact absurd (hpos ⟨hb, hc⟩) (Nat.not_lt.mpr h)

/-- A chunk that ends before some byte stays as it is with another byte there,
before which it ends as well. -/
theorem read_local {b : UInt8} (hd : EndsLike c d) (zs : List UInt8) (hc : c ≠ '.'.toUInt8)
    (h : (Chunk.read b (xs ++ c :: ys)).more ≤ xs.length) :
    Chunk.read b (xs ++ d :: zs) = Chunk.read b (xs ++ c :: ys) := by
  have hjoint : ∀ {a x : UInt8}, x ∈ ['/'.toUInt8, '*'.toUInt8, '>'.toUInt8, '.'.toUInt8] →
      (b = a ∧ c = x → 0 < (Chunk.read b (c :: ys)).more) →
        (b = a ∧ (xs ++ d :: zs).head? = some x ↔ b = a ∧ (xs ++ c :: ys).head? = some x) := by
    intro a x hx hpos
    refine lookahead_local (Q := (· = some x)) ?_ ?_ h zs
    · simpa using hd.joint x hx
    · simpa using hpos
  have hslash := hjoint (by decide) fun hpair => more_pos ys (.inl hpair)
  have hstar := hjoint (by decide) fun hpair => more_pos ys (.inr (.inl hpair))
  have hangle := hjoint (by decide) fun hpair => more_pos ys (.inr (.inr (.inl hpair)))
  have hminus : b = '-'.toUInt8 ∧ (xs ++ d :: zs).head?.any isDigit = true ↔
      b = '-'.toUInt8 ∧ (xs ++ c :: ys).head?.any isDigit = true := by
    refine lookahead_local (Q := (·.any isDigit = true)) ?_ ?_ h zs
    · simpa using mt hd.digit
    · simpa using fun hb hdigit => more_pos ys (.inr (.inr (.inr ⟨hb, hdigit⟩)))
  have hpoint : d ≠ '.'.toUInt8 := fun hpoint => hc (hd.joint _ (by decide) hpoint)
  have htake : ∀ {n : Nat}, n ≤ xs.length → (xs ++ d :: zs).take n = (xs ++ c :: ys).take n := by
    intro n hn
    rw [List.take_append_of_le_length hn, List.take_append_of_le_length hn]
  simp only [Chunk.read, hslash, hstar, hangle, hminus] at h ⊢
  -- The byte behind is now known to select the same branch for both texts.
  split_ifs at h ⊢ with hline hblock harrow hquote hnumber hword
  · simp only [Chunk.skip, toLineEnd] at h ⊢
    rw [takeWhile_local (by simpa using hd.newline) zs h]
  · cases xs with
    | nil =>
        simp only [Chunk.skip, List.length_nil] at h
        omega
    | cons a rest =>
        simp only [Chunk.skip, List.cons_append, List.tail_cons, List.length_cons] at h ⊢
        have hrest : toCommentEnd (rest ++ c :: ys) ≤ rest.length := by omega
        rw [toCommentEnd_local zs hrest]
  · rfl
  · simp only [Chunk.ofQuotation] at h ⊢
    rw [quotation_local hd.newline zs h]
  · simp only [Chunk.verbatim] at h ⊢
    rw [toNumberEnd_local hd.digit zs hc hpoint h, htake h]
  · simp only [Chunk.verbatim] at h ⊢
    rw [takeWhile_local hd.wordPart zs h, htake h]
  · rfl

theorem read_point (rest : List UInt8) : Chunk.read '.'.toUInt8 rest = .skip 0 := by
  simp only [Chunk.read]
  rfl

theorem read_blank (hc : isBlank c = true) (rest : List UInt8) : Chunk.read c rest = .skip 0 := by
  rcases isBlank_iff.mp hc with rfl | rfl | rfl | rfl
  all_goals
    simp only [Chunk.read]
    rfl

/-- No token starts with a byte that is always skipped, such as a blank or a
point. -/
theorem read_ne_skip_of_token {p : Position} {skip : Nat} {before after : List Token} {t : Token}
    (h : tokensFrom p skip (xs ++ c :: ys) = before ++ t :: after)
    (ht : t.position.offset = p.offset + xs.length) : Chunk.read c ys ≠ .skip 0 := by
  intro hread
  obtain ⟨size, hsize, hposition, hafter⟩ := resume h
  have hoffset := congrArg Position.offset hposition
  rw [Position.offset_advance, List.length_take_of_le (Nat.le_of_lt hsize)] at hoffset
  obtain rfl : size = xs.length := by omega
  rw [List.drop_left] at hafter
  simp only [tokensFrom, hread] at hafter
  have hmem : t ∈ tokensFrom (t.position.next c) 0 ys := by
    have : t ∈ t :: after := List.mem_cons_self
    rwa [hafter] at this
  have hle := offset_le_of_mem hmem
  rw [Position.offset_next] at hle
  omega

/-- The tokens before a token do not depend on what stands behind its first
byte, nor on this byte if chunks end before another one there as well. -/
theorem tokensFrom_local {p : Position} {skip : Nat} {before after : List Token} {t : Token}
    (h : tokensFrom p skip (xs ++ c :: ys) = before ++ t :: after)
    (ht : t.position.offset = p.offset + xs.length) (hd : EndsLike c d) (zs : List UInt8) :
    tokensFrom p skip (xs ++ d :: zs) = before ++ tokensFrom (p.advance xs) 0 (d :: zs) := by
  have hc : c ≠ '.'.toUInt8 := by
    rintro rfl
    exact read_ne_skip_of_token h ht (read_point ys)
  induction xs generalizing p skip before with
  | nil =>
      simp only [List.nil_append, List.length_nil, Nat.add_zero] at h ht ⊢
      have hmem : t ∈ tokensFrom p skip (c :: ys) := by simp [h]
      have hskip := offset_le_of_mem hmem
      obtain rfl : skip = 0 := by omega
      cases before with
      | nil => rfl
      | cons first before =>
          -- A token before `t` would lie before the bytes that are read.
          have hfirst : first ∈ tokensFrom p 0 (c :: ys) := by simp [h]
          have hle := offset_le_of_mem hfirst
          have hpairwise := tokensFrom_pairwise p 0 (c :: ys)
          rw [h] at hpairwise
          have hlt := (List.pairwise_cons.mp hpairwise).1 t (by simp)
          omega
  | cons a rest ih =>
      have hnext := p.offset_next a
      simp only [List.cons_append, List.length_cons] at h ht ⊢
      cases skip with
      | succ left => exact ih h (by omega)
      | zero =>
          simp only [tokensFrom] at h ⊢
          have hlocal : t ∈ tokensFrom (p.next a) (Chunk.read a (rest ++ c :: ys)).more
                (rest ++ c :: ys) →
              Chunk.read a (rest ++ d :: zs) = Chunk.read a (rest ++ c :: ys) := by
            intro hmem
            have hle := offset_le_of_mem hmem
            exact read_local hd zs hc (by omega)
          split at h
          next kind text htoken =>
            cases before with
            | nil =>
                obtain ⟨rfl, _⟩ := List.cons.inj h
                simp only at ht
                omega
            | cons first before =>
                obtain ⟨rfl, hrest⟩ := List.cons.inj h
                rw [hlocal (by simp [hrest]), htoken]
                simp only
                rw [ih hrest (by omega)]
                rfl
          next htoken =>
            rw [hlocal (by simp [h]), htoken]
            exact ih h (by omega)

end Locality

/-- The same bytes at another place give the same tokens at their places
there. -/
theorem tokensFrom_rebase {base p : Position} (base' : Position) (h : base.Follows p) (skip : Nat)
    (bs : List UInt8) :
    tokensFrom (base.rebase base' p) skip bs =
      (tokensFrom p skip bs).map (Token.rebase base base') := by
  induction bs generalizing p skip with
  | nil => rfl
  | cons b rest ih =>
      have hnext := ih (h.next b)
      rw [Position.rebase_next base' h b] at hnext
      cases skip with
      | succ left => exact hnext left
      | zero =>
          simp only [tokensFrom, hnext]
          split <;> rfl

end Scan

end BlockLang
