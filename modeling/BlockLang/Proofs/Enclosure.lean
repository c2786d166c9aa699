import BlockLang.Source.Body
import Mathlib.Data.List.Basic

/-! # What a block encloses

Finding the end of a block is a walk of an automaton over its bytes, one byte at a time. The
automaton remembers a slash, a star or a backslash until the next byte tells what it means, so a
walk over two stretches of bytes is a walk over the first followed by one over the second.
-/

namespace BlockLang

namespace Body

/-- What the bytes read so far leave open. -/
inductive Mode where
  | code
  /-- Behind a slash that may begin a comment. -/
  | slash
  | quoted (quote : UInt8)
  /-- Behind a backslash inside quotes. -/
  | escaped (quote : UInt8)
  | lineComment
  | blockComment
  /-- Behind a star that may end a comment. -/
  | star
  deriving DecidableEq, Repr

namespace Mode

def isCode : Mode → Bool
  | code | slash => true
  | _ => false

def afterCode (b : UInt8) : Mode :=
  if isQuote b then quoted b else if b = '/'.toUInt8 then slash else code

def next : Mode → UInt8 → Mode
  | code, b => afterCode b
  | slash, b =>
    if b = '/'.toUInt8 then lineComment else if b = '*'.toUInt8 then blockComment else afterCode b
  | quoted quote, b =>
    if b = '\\'.toUInt8 then escaped quote else if b = quote then code else quoted quote
  | escaped quote, _ => quoted quote
  | lineComment, b => if b = '\n'.toUInt8 then code else lineComment
  | blockComment, b => if b = '*'.toUInt8 then star else blockComment
  | star, b => if b = '/'.toUInt8 then code else if b = '*'.toUInt8 then star else blockComment

end Mode

def Region.mode : Region → Mode
  | code => .code
  | quoted quote => .quoted quote
  | lineComment => .lineComment
  | blockComment => .blockComment

structure State where
  mode : Mode
  depth : Nat
  deriving DecidableEq, Repr

namespace State

/-- The state behind one more byte, unless the byte closes the outermost
block. -/
def step (s : State) (b : UInt8) : Option State :=
  if s.mode.isCode ∧ b = '}'.toUInt8 then
    if s.depth ≤ 1 then none else some ⟨s.mode.next b, s.depth - 1⟩
  else if s.mode.isCode ∧ b = '{'.toUInt8 then some ⟨s.mode.next b, s.depth + 1⟩
  else some ⟨s.mode.next b, s.depth⟩

def walk (s : State) : List UInt8 → Option State
  | [] => some s
  | b :: rest => (s.step b).bind fun next => next.walk rest

def closing (s : State) (offset : Nat) : List UInt8 → Except Nat Nat
  | [] => .error s.depth
  | b :: rest =>
    match s.step b with
    | none => .ok offset
    | some next => next.closing (offset + 1) rest

theorem walk_append (s : State) (xs ys : List UInt8) :
    s.walk (xs ++ ys) = (s.walk xs).bind fun next => next.walk ys := by
  induction xs generalizing s with
  | nil => rfl
  | cons b rest ih =>
      simp only [List.cons_append, walk]
      cases s.step b with
      | none => rfl
      | some next => exact ih next

/-- A block is closed by the first byte that the walk cannot pass. -/
theorem closing_eq_ok_iff {s : State} {offset n : Nat} {bs : List UInt8} :
    s.closing offset bs = .ok n ↔ ∃ inside b rest last, bs = inside ++ b :: rest ∧
      n = offset + inside.length ∧ s.walk inside = some last ∧ last.step b = none := by
  induction bs generalizing s offset with
  | nil => simp [closing]
  | cons b rest ih =>
      -- The scan stops at the first byte with no next state.
      cases hstep : s.step b with
      | none =>
          simp only [closing, hstep, Except.ok.injEq]
          constructor
          · rintro rfl
            exact ⟨[], b, rest, s, rfl, rfl, rfl, hstep⟩
          · rintro ⟨inside, b', rest', last, hbs, rfl, hwalk, hlast⟩
            cases inside with
            | nil => simp
            | cons first inside =>
                obtain ⟨rfl, _⟩ := List.cons.inj hbs
                simp [walk, hstep] at hwalk
      | some next =>
          simp only [closing, hstep, ih]
          constructor
          · rintro ⟨inside, b', rest', last, rfl, rfl, hwalk, hlast⟩
            refine ⟨b :: inside, b', rest', last, rfl, ?_, ?_, hlast⟩
            · simp only [List.length_cons]
              omega
            · simpa [walk, hstep] using hwalk
          · rintro ⟨inside, b', rest', last, hbs, rfl, hwalk, hlast⟩
            cases inside with
            | nil =>
                obtain ⟨rfl, rfl⟩ := List.cons.inj hbs
                cases hwalk
                rw [hstep] at hlast
                cases hlast
            | cons first inside =>
                obtain ⟨rfl, rfl⟩ := List.cons.inj hbs
                refine ⟨inside, b', rest', last, rfl, ?_, ?_, hlast⟩
                · simp only [List.length_cons]
                  omega
                · simpa [walk, hstep] using hwalk

end State

variable {offset : Nat} {bs : List UInt8} {s : State} {b : UInt8}

/-- Behind a slash that begins no comment, bytes are read as if it were not
there. -/
theorem State.closing_slash {depth : Nat} (hslash : bs.head? ≠ some '/'.toUInt8)
    (hstar : bs.head? ≠ some '*'.toUInt8) :
    State.closing ⟨.slash, depth⟩ offset bs = State.closing ⟨.code, depth⟩ offset bs := by
  cases bs with
  | nil => rfl
  | cons b rest =>
      have h₁ : b ≠ '/'.toUInt8 := fun h => hslash (by rw [h]; rfl)
      have h₂ : b ≠ '*'.toUInt8 := fun h => hstar (by rw [h]; rfl)
      simp only [State.closing, State.step, Mode.isCode, Mode.next, if_neg h₁, if_neg h₂]

theorem State.closing_cons_of_ne {rest : List UInt8}
    (hopen : b ≠ '{'.toUInt8) (hclose : b ≠ '}'.toUInt8) :
    s.closing offset (b :: rest) = State.closing ⟨s.mode.next b, s.depth⟩ (offset + 1) rest := by
  simp only [State.closing, State.step, hopen, hclose, and_false, if_false]

theorem State.closing_cons_of_not_code {rest : List UInt8} (hcode : s.mode.isCode = false) :
    s.closing offset (b :: rest) = State.closing ⟨s.mode.next b, s.depth⟩ (offset + 1) rest := by
  simp [State.closing, State.step, hcode]

theorem State.closing_star {depth : Nat} (hslash : bs.head? ≠ some '/'.toUInt8) :
    State.closing ⟨.star, depth⟩ offset bs = State.closing ⟨.blockComment, depth⟩ offset bs := by
  cases bs with
  | nil => rfl
  | cons b rest =>
      have hb : b ≠ '/'.toUInt8 := fun h => hslash (by rw [h]; rfl)
      rw [closing_cons_of_not_code rfl, closing_cons_of_not_code rfl]
      simp only [Mode.next, if_neg hb]

/-- Finding the end of a block is the walk of the automaton. -/
theorem closing_eq (region : Region) (depth offset : Nat) (bs : List UInt8) :
    closing region depth offset bs = State.closing ⟨region.mode, depth⟩ offset bs := by
  -- Where the search takes an escape or the mark of a comment at once, the automaton takes two
  -- steps; where a slash or a star turns out to be none, its mode is forgotten again.
  fun_induction closing region depth offset bs with
  | case1 region depth offset => rfl
  | case2 depth offset quote => rfl
  | case3 depth offset quote b after ih =>
      rw [ih, State.closing_cons_of_not_code rfl, State.closing_cons_of_not_code rfl]
      rfl
  | case4 depth offset b after quote hb ih =>
      rw [ih, State.closing_cons_of_not_code rfl]
      simp only [Region.mode, Mode.next, if_neg hb]
      by_cases hquote : b = quote <;> simp [hquote]
  | case5 depth offset b after ih =>
      rw [ih, State.closing_cons_of_not_code rfl]
      simp only [Region.mode, Mode.next]
      by_cases hnewline : b = '\n'.toUInt8 <;> simp [hnewline]
  | case6 depth offset b =>
      rw [State.closing_cons_of_not_code rfl]
      rfl
  | case7 depth offset b next after hend ih =>
      obtain ⟨rfl, rfl⟩ := hend
      rw [ih, State.closing_cons_of_not_code rfl, State.closing_cons_of_not_code rfl]
      rfl
  | case8 depth offset b next after hend ih =>
      rw [ih]
      by_cases hstar : b = '*'.toUInt8
      · have hnext : (next :: after).head? ≠ some '/'.toUInt8 := by
          simpa [hstar] using hend
        rw [hstar]
        exact (State.closing_star hnext).symm
      · rw [State.closing_cons_of_not_code (b := b) rfl]
        simp only [Region.mode, Mode.next, if_neg hstar]
  | case9 depth offset b after hquote ih =>
      have hopen : b ≠ '{'.toUInt8 := by rintro rfl; cases hquote
      have hclose : b ≠ '}'.toUInt8 := by rintro rfl; cases hquote
      rw [ih, State.closing_cons_of_ne hopen hclose]
      simp [Region.mode, Mode.next, Mode.afterCode, hquote]
  | case10 depth offset b after hquote hline ih =>
      obtain ⟨rfl, hhead⟩ := hline
      obtain ⟨rest, rfl⟩ := List.head?_eq_some_iff.mp hhead
      rw [ih, State.closing_cons_of_not_code rfl, State.closing_cons_of_ne (by decide) (by decide),
        State.closing_cons_of_ne (by decide) (by decide)]
      rfl
  | case11 depth offset b hquote hline hblock => simp at hblock
  | case12 depth offset b hquote next after hline hblock ih =>
      obtain ⟨rfl, hnext⟩ := hblock
      obtain rfl : next = '*'.toUInt8 := by simpa using hnext
      rw [ih, State.closing_cons_of_ne (by decide) (by decide),
        State.closing_cons_of_ne (by decide) (by decide)]
      rfl
  | case13 depth offset after hquote hline hblock ih =>
      rw [ih]
      rfl
  | case14 depth offset after hdepth hquote hline hblock hopen =>
      simp [State.closing, State.step, Region.mode, Mode.isCode, hdepth]
  | case15 depth offset after hdepth hquote hline hblock hopen ih =>
      have hstep : State.step ⟨.code, depth⟩ '}'.toUInt8 = some ⟨.code, depth - 1⟩ := by
        simp only [State.step, if_neg hdepth]
        rfl
      simp only [ih, Region.mode, State.closing, hstep]
  | case16 depth offset b after hquote hline hblock hopen hclose ih =>
      rw [ih, State.closing_cons_of_ne hopen hclose]
      simp only [Region.mode, Mode.next, Mode.afterCode, if_neg hquote]
      by_cases hslash : b = '/'.toUInt8
      · rw [if_pos hslash, State.closing_slash (fun h => hline ⟨hslash, h⟩)
          (fun h => hblock ⟨hslash, h⟩)]
      · rw [if_neg hslash]

theorem State.step_eq_none_iff :
    s.step b = none ↔ s.mode.isCode = true ∧ b = '}'.toUInt8 ∧ s.depth ≤ 1 := by
  unfold State.step
  split_ifs with hclose hdepth hopen
  · simp [hclose, hdepth]
  · simp [hdepth]
  · simp only [false_iff]
    rintro ⟨hcode, hb, _⟩
    exact hclose ⟨hcode, hb⟩
  · simp only [false_iff]
    rintro ⟨hcode, hb, _⟩
    exact hclose ⟨hcode, hb⟩

theorem State.depth_pos_of_step {next : State} (hstep : s.step b = some next)
    (hdepth : 0 < s.depth) : 0 < next.depth := by
  unfold State.step at hstep
  split_ifs at hstep with hclose hle hopen
  all_goals
    obtain rfl := Option.some.inj hstep
    simp only
    omega

/-- A walk never closes the outermost block, so some block is open at its
end. -/
theorem State.depth_pos_of_walk {last : State} (hwalk : s.walk bs = some last)
    (hdepth : 0 < s.depth) : 0 < last.depth := by
  induction bs generalizing s with
  | nil =>
      obtain rfl := Option.some.inj hwalk
      exact hdepth
  | cons b rest ih =>
      obtain ⟨next, hstep, hrest⟩ := Option.bind_eq_some_iff.mp hwalk
      exact ih hrest (State.depth_pos_of_step hstep hdepth)

/-- Bytes that can stand between the braces of a block: they close all that they
open, and nothing else. -/
def Whole (bs : List UInt8) : Prop :=
  ∃ mode : Mode, State.walk ⟨.code, 1⟩ bs = some ⟨mode, 1⟩ ∧ mode.isCode = true

/-- A block ends at the first brace before which everything is whole. There is
only one such brace. -/
theorem closing_eq_ok_iff {n : Nat} :
    closing .code 1 offset bs = .ok n ↔ ∃ inside rest, bs = inside ++ '}'.toUInt8 :: rest ∧
      n = offset + inside.length ∧ Whole inside := by
  rw [closing_eq, State.closing_eq_ok_iff]
  constructor
  · rintro ⟨inside, b, rest, last, rfl, rfl, hwalk, hlast⟩
    obtain ⟨hcode, rfl, hdepth⟩ := State.step_eq_none_iff.mp hlast
    have hpos := State.depth_pos_of_walk hwalk Nat.one_pos
    obtain ⟨mode, depth⟩ := last
    obtain rfl : depth = 1 := Nat.le_antisymm hdepth hpos
    exact ⟨inside, rest, rfl, rfl, mode, hwalk, hcode⟩
  · rintro ⟨inside, rest, rfl, rfl, mode, hwalk, hcode⟩
    exact ⟨inside, _, rest, _, rfl, rfl, hwalk,
      State.step_eq_none_iff.mpr ⟨hcode, rfl, Nat.le_refl 1⟩⟩

end Body

/-- A body that is found is what stands between its braces, with the blanks at
its ends cut off, and what stands there is whole. -/
theorem Block.extract_eq_ok_iff {source : List UInt8} {offset : Nat} {block : Block} :
    Block.extract source offset = .ok block ↔ ∃ inside rest,
      source.drop (offset + 1) = inside ++ '}'.toUInt8 :: rest ∧ Body.Whole inside ∧
        block = ⟨Text.trim (Text.ofBytes inside), offset + 1 + inside.length⟩ := by
  constructor
  · intro h
    simp only [Block.extract] at h
    split at h
    next size hsize =>
      obtain ⟨inside, rest, hdrop, rfl, hwhole⟩ := Body.closing_eq_ok_iff.mp hsize
      obtain rfl := Except.ok.inj h
      refine ⟨inside, rest, hdrop, hwhole, ?_⟩
      simp [hdrop]
    next => cases h
  · rintro ⟨inside, rest, hdrop, hwhole, rfl⟩
    have hclosing : Body.closing .code 1 0 (inside ++ '}'.toUInt8 :: rest) = .ok inside.length :=
      Body.closing_eq_ok_iff.mpr ⟨inside, rest, rfl, (Nat.zero_add _).symm, hwhole⟩
    simp [Block.extract, hdrop, hclosing]

end BlockLang
