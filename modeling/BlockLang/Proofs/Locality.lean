import BlockLang.Proofs.ErrorPositions
import BlockLang.Proofs.Runs

/-! # Changing a source away from where it is read

Reading up to some offset does not depend on what stands behind it. Reading from some offset on
depends on what stands before it only through lines.
-/

namespace BlockLang

theorem Position.line_advance (p : Position) (bs : List UInt8) :
    (p.advance bs).line = p.line + bs.count '\n'.toUInt8 := by
  induction bs generalizing p with
  | nil => rfl
  | cons b rest ih =>
      rw [advance_cons, ih, List.count_cons]
      unfold next
      by_cases hb : b = '\n'.toUInt8
      · simp only [hb, if_true, beq_self_eq_true]
        omega
      · simp [hb]

theorem Position.line_ofOffset (source : List UInt8) (offset : Nat) :
    (ofOffset source offset).line = 1 + (source.take offset).count '\n'.toUInt8 :=
  line_advance _ _

namespace Block

/-- From the line of some byte on, only bytes of the same line come before
it. -/
theorem fromLine_eq (before after : List UInt8) :
    ∃ start, fromLine (before.count '\n'.toUInt8 + 1) (before ++ after) = some (start ++ after) ∧
      ∀ b ∈ start, b ≠ '\n'.toUInt8 := by
  induction before with
  | nil => exact ⟨[], rfl, by simp⟩
  | cons b rest ih =>
      obtain ⟨start, hfrom, hstart⟩ := ih
      by_cases hb : b = '\n'.toUInt8
      · refine ⟨start, ?_, hstart⟩
        rw [hb, List.count_cons_self, List.cons_append, fromLine,
          List.dropWhile_cons_of_neg (by simp)]
        exact hfrom
      · rw [List.count_cons_of_ne hb, List.cons_append]
        cases hcount : rest.count '\n'.toUInt8 with
        | zero =>
            refine ⟨b :: rest, rfl, ?_⟩
            intro a ha
            rcases List.mem_cons.mp ha with rfl | hmem
            · exact hb
            · rintro rfl
              exact List.count_eq_zero.mp hcount hmem
        | succ lines =>
            refine ⟨start, ?_, hstart⟩
            rw [hcount, fromLine] at hfrom
            rw [fromLine, List.dropWhile_cons_of_pos (by simpa using hb)]
            exact hfrom

/-- A line on which a brace opens has an opening brace, though perhaps another
one before it. -/
theorem exists_locate {source rest : List UInt8} {offset : Nat}
    (h : source.drop offset = '{'.toUInt8 :: rest) :
    ∃ n, locate source (Position.ofOffset source offset).line = .ok n := by
  obtain ⟨start, hfrom, hstart⟩ := fromLine_eq (source.take offset) (source.drop offset)
  rw [List.take_append_drop] at hfrom
  have hbrace : '{'.toUInt8 ∈ (start ++ source.drop offset).takeWhile (· != '\n'.toUInt8) := by
    rw [h, List.takeWhile_append_of_pos (by simpa using hstart),
      List.takeWhile_cons_of_pos (by decide)]
    simp
  rw [Position.line_ofOffset, Nat.add_comm]
  simp only [locate, hfrom]
  cases hfind : ((start ++ source.drop offset).takeWhile (· != '\n'.toUInt8)).findIdx?
      (· == '{'.toUInt8) with
  | none =>
      have hnone := List.findIdx?_eq_none_iff.mp hfind _ hbrace
      simp at hnone
  | some i => exact ⟨_, rfl⟩

end Block

namespace Tokens

theorem behind_of_brace {source rest : List UInt8} {offset : Nat}
    (h : source.drop offset = '{'.toUInt8 :: rest) :
    (behind source offset).items =
      ⟨.mark .braceOpen, Mark.braceOpen.spelling, Position.ofOffset source offset⟩ ::
        Scan.tokensFrom ((Position.ofOffset source offset).next '{'.toUInt8) 0 rest := by
  have hread : Scan.Chunk.read '{'.toUInt8 rest =
      ⟨some (.mark .braceOpen, Mark.braceOpen.spelling), 0⟩ := by
    simp only [Scan.Chunk.read]
    rfl
  simp only [behind, scan, h, Scan.tokensFrom, hread]

theorem locate_of_brace {source : List UInt8} {m : Nat} {before after : List Token} {brace : Token}
    (h : (behind source m).items = before ++ brace :: after)
    (hkind : brace.kind = .mark .braceOpen) :
    ∃ n, Block.locate source brace.position.line = .ok n := by
  obtain ⟨-, -, hposition, -⟩ := behind_of_mem h
  rw [hposition]
  exact Block.exists_locate (drop_of_brace h hkind)

end Tokens

/-! ## What stands behind -/

section

variable {source source' : List UInt8} {k : Nat}

theorem take_congr {n : Nat} (hagree : source.take k = source'.take k) (hn : n ≤ k) :
    source.take n = source'.take n := by
  have htake := congrArg (List.take n) hagree
  rwa [List.take_take, List.take_take, Nat.min_eq_left hn] at htake

/-- Two sources that agree up to an offset behind some byte can be cut before
this byte, with the same bytes in front and the same byte next. -/
theorem exists_common {offset : Nat} (hagree : source.take k = source'.take k)
    (hlt : offset < source.length) (hk : offset < k) :
    ∃ start c rest rest', start.length = offset ∧ source = start ++ c :: rest ∧
      source' = start ++ c :: rest' := by
  obtain ⟨start, c, rest, rfl, rfl⟩ :
      ∃ start c rest, start.length = offset ∧ source = start ++ c :: rest :=
    ⟨source.take offset, source.get ⟨offset, hlt⟩, source.drop (offset + 1),
      List.length_take_of_le (Nat.le_of_lt hlt), by simp⟩
  refine ⟨start, c, rest, source'.drop (start.length + 1), rfl, rfl, ?_⟩
  have htake := take_congr (n := start.length + 1) hagree hk
  rw [List.take_length_add_append] at htake
  calc source' = source'.take (start.length + 1) ++ source'.drop (start.length + 1) :=
        (List.take_append_drop _ _).symm
    _ = start ++ c :: source'.drop (start.length + 1) := by
        rw [← htake, List.append_assoc]
        rfl

/-- The tokens before a token depend on its first byte only in that chunks end
there. -/
theorem Tokens.behind_endsLike {m : Nat} {start rest : List UInt8} {c d : UInt8}
    {before after : List Token} {t : Token} (hd : Scan.EndsLike c d)
    (h : (behind (start ++ c :: rest) m).items = before ++ t :: after)
    (ht : t.position.offset = start.length) (rest' : List UInt8) :
    (behind (start ++ d :: rest') m).items =
      before ++ (behind (start ++ d :: rest') t.position.offset).items := by
  obtain ⟨hle, -, -, -⟩ := behind_of_mem h
  have hm : m ≤ start.length := by omega
  have hposition : ∀ tail, Position.ofOffset (start ++ tail) m = Position.ofOffset start m := by
    intro tail
    rw [Position.ofOffset, Position.ofOffset, List.take_append_of_le_length hm]
  have hdrop : ∀ tail, (start ++ tail).drop m = start.drop m ++ tail :=
    fun tail => List.drop_append_of_le_length hm
  have hend : (Position.ofOffset start m).advance (start.drop m) =
      Position.ofOffset (start ++ d :: rest') t.position.offset := by
    rw [Position.ofOffset, ← Position.advance_append, List.take_append_drop, Position.ofOffset, ht,
      List.take_left]
  simp only [behind, scan, hposition, hdrop] at h ⊢
  rw [Scan.tokensFrom_local h ?_ hd rest', hend, ht, List.drop_left]
  rw [Position.offset_ofOffset hm, List.length_drop]
  omega

/-- The tokens before a token depend on nothing behind its first byte. -/
theorem Tokens.behind_local {m : Nat} {before after : List Token} {t : Token}
    (hagree : source.take k = source'.take k)
    (h : (behind source m).items = before ++ t :: after) (hk : t.position.offset < k) :
    (behind source' m).items = before ++ (behind source' t.position.offset).items := by
  obtain ⟨-, hlt, -, -⟩ := behind_of_mem h
  obtain ⟨start, c, rest, rest', hstart, rfl, rfl⟩ := exists_common hagree hlt hk
  exact behind_endsLike (.refl c) h hstart.symm rest'

theorem Position.ofOffset_congr {n : Nat} (hagree : source.take k = source'.take k) (hn : n ≤ k) :
    ofOffset source n = ofOffset source' n := by
  rw [ofOffset, ofOffset, take_congr hagree hn]

theorem Tokens.stop_behind_eq (source : List UInt8) (m n : Nat) :
    (behind source m).stop = (behind source n).stop := by
  rw [stop_behind, stop_behind]

/-- A brace and the tokens before it depend on nothing behind it, because a
brace is a token by itself whatever follows. -/
theorem Tokens.behind_brace_local {m : Nat} {before after : List Token} {brace : Token}
    (hagree : source.take k = source'.take k)
    (h : (behind source m).items = before ++ brace :: after)
    (hkind : brace.kind = .mark .braceOpen) (hk : brace.position.offset < k) :
    ∃ after', (behind source' m).items = before ++ brace :: after' := by
  obtain ⟨-, hlt, -, hitems⟩ := behind_of_mem h
  have hdrop := drop_of_brace h hkind
  obtain ⟨start, c, rest, rest', hstart, rfl, rfl⟩ := exists_common hagree hlt hk
  rw [behind_of_brace hdrop] at hitems
  rw [← hstart, List.drop_left] at hdrop
  obtain ⟨rfl, -⟩ := List.cons.inj hdrop
  have hdrop' : (start ++ '{'.toUInt8 :: rest').drop brace.position.offset =
      '{'.toUInt8 :: rest' := by rw [← hstart, List.drop_left]
  rw [behind_local hagree h hk, behind_of_brace hdrop',
    ← Position.ofOffset_congr hagree (Nat.le_of_lt hk)]
  obtain ⟨hbrace, -⟩ := List.cons.inj hitems
  exact ⟨_, by rw [hbrace]⟩

/-- Whether two sources look the same before an offset: in their bytes, and in
the tokens before each token that starts there. -/
structure Tokens.AlikeBefore (source source' : List UInt8) (k : Nat) : Prop where
  take : source.take (k - 1) = source'.take (k - 1)
  tokens : ∀ {m : Nat} {before after : List Token} {t : Token},
    (behind source m).items = before ++ t :: after → t.position.offset < k →
      (behind source' m).items = before ++ (behind source' t.position.offset).items

theorem Tokens.AlikeBefore.of_take (hagree : source.take k = source'.take k) :
    AlikeBefore source source' k where
  take := take_congr hagree (Nat.sub_le k 1)
  tokens := behind_local hagree

/-- Where the tokens behind two offsets are the same, they are the same in a
source that looks alike up to the first of them. -/
theorem Tokens.AlikeBefore.congr {m n : Nat} {t : Token} {items : List Token}
    (halike : AlikeBefore source source' k) (heq : behind source m = behind source n)
    (hitems : (behind source n).items = t :: items) (hk : t.position.offset < k) :
    behind source' m = behind source' n := by
  have hitems' : (behind source n).items = [] ++ t :: items := hitems
  have hlocal := halike.tokens hitems' hk
  rw [← heq] at hitems'
  rw [← halike.tokens hitems' hk] at hlocal
  rw [Tokens.mk.injEq]
  exact ⟨hlocal.symm, stop_behind_eq source' m n⟩

namespace Parser

/-- An action is read from the tokens that it uses up. -/
theorem ActionUses.block_eq {m : Nat} {t brace : Token} {a : Action} {items used rest : List Token}
    {c : Nat} (huses : ActionUses source t a items used brace rest c)
    (hitems : (Tokens.behind source m).items = t :: items) :
    block source t ⟨items, (Tokens.behind source m).stop⟩ =
      .ok (ofAction a, Tokens.behind source (c + 1)) := by
  obtain ⟨n, hlocate⟩ := Tokens.locate_of_brace (huses.items_eq hitems) huses.kind
  simp only [block, huses.keyword]
  rw [← huses.skipBody_eq hitems, huses.split]
  exact Except.map_eq_ok_iff.mpr ⟨(a, _), action_eq_ok_iff.mpr ⟨brace :: rest, brace.position, n, _,
    huses.header _ _, bodyBrace_eq_ok_iff.mpr ⟨_, _, rfl, huses.kind, rfl⟩, hlocate, huses.extract,
    rfl, huses.line, rfl⟩, rfl⟩

/-- A body that is closed depends on nothing behind its closing brace. -/
theorem extract_local {offset : Nat} {body : Block} (hagree : source.take k = source'.take k)
    (h : Block.extract source offset = .ok body) (hk : body.closeOffset < k) :
    Block.extract source' offset = .ok body := by
  obtain ⟨hopen, hclose⟩ := closeOffset_lt h
  obtain ⟨start, c, rest, rest', hstart, rfl, rfl⟩ := exists_common hagree hclose hk
  obtain ⟨inside, tail, hdrop, hwhole, rfl⟩ := Block.extract_eq_ok_iff.mp h
  simp only at hopen hstart
  have hle : offset + 1 ≤ start.length := by omega
  rw [List.drop_append_of_le_length hle] at hdrop
  obtain ⟨hinside, hrest⟩ := List.append_inj hdrop (by rw [List.length_drop]; omega)
  obtain ⟨rfl, -⟩ := List.cons.inj hrest
  refine Block.extract_eq_ok_iff.mpr ⟨inside, rest', ?_, hwhole, rfl⟩
  rw [List.drop_append_of_le_length hle, hinside]

/-- How many tokens behind its first one reading a block comes to: those that it
uses up, of an action those up to its brace, and all where it fails. -/
def reach (source : List UInt8) (t : Token) (ts : Tokens) : Nat :=
  if t.kind = .keyword .action then
    match signature ts.stop ts.items with
    | .ok (_, rest) => ts.items.length - rest.length + 1
    | .error _ => ts.items.length
  else
    match block source t ts with
    | .ok (_, later) => ts.items.length - later.items.length
    | .error _ => ts.items.length

def passedBy (source : List UInt8) (t : Token) (ts : Tokens) : List Token :=
  t :: ts.items.take (reach source t ts)

section

variable {t : Token} {used rest : List Token} {stop : Position}

theorem passedBy_block {tree : Tree} (hkind : t.kind ≠ .keyword .action)
    (h : block source t ⟨used ++ rest, stop⟩ = .ok (tree, ⟨rest, stop⟩)) :
    passedBy source t ⟨used ++ rest, stop⟩ = t :: used := by
  simp [passedBy, reach, hkind, h]

theorem passedBy_action {a : String × List String} {brace : Token}
    (hkind : t.kind = .keyword .action)
    (h : signature stop (used ++ brace :: rest) = .ok (a, brace :: rest)) :
    passedBy source t ⟨used ++ brace :: rest, stop⟩ = t :: (used ++ [brace]) := by
  simp [passedBy, reach, hkind, h, List.take_length_add_append]

end

/-- One block is read alike from two sources that part only behind it, and
reading it comes to the same tokens. -/
theorem block_local {m : Nat} {t : Token} {items : List Token} {tree : Tree} {later : Tokens}
    (halike : Tokens.AlikeBefore source source' k)
    (hitems : (Tokens.behind source m).items = t :: items)
    (hblock : block source t ⟨items, (Tokens.behind source m).stop⟩ = .ok (tree, later)) :
    ∃ n, later = Tokens.behind source n ∧ ∀ next others,
      (Tokens.behind source n).items = next :: others → next.position.offset < k →
        t.position.offset < k ∧ ∃ items', (Tokens.behind source' m).items = t :: items' ∧
          block source' t ⟨items', (Tokens.behind source' m).stop⟩ =
            .ok (tree, Tokens.behind source' n) ∧
          passedBy source' t ⟨items', (Tokens.behind source' m).stop⟩ =
            passedBy source t ⟨items, (Tokens.behind source m).stop⟩ := by
  by_cases hkind : t.kind = .keyword .action
  · obtain ⟨a, used, brace, rest, c, rfl, rfl, huses⟩ := action_uses hkind hblock
    refine ⟨c + 1, huses.skipBody_eq hitems, ?_⟩
    intro next others hnext hk
    have hnext' : (Tokens.behind source (c + 1)).items = [] ++ next :: others := hnext
    obtain ⟨hc, -⟩ := Tokens.behind_of_mem hnext'
    obtain ⟨hopen, -⟩ := closeOffset_lt huses.extract
    simp only at hopen
    have hsplit := huses.items_eq hitems
    have hlt := Tokens.offset_lt_of_split hsplit
    obtain ⟨after', hitems'⟩ :=
      Tokens.behind_brace_local halike.take hsplit huses.kind (by omega)
    have hextract := extract_local halike.take huses.extract (by simp only; omega)
    have huses' : ActionUses source' t a (used ++ brace :: after') used brace after' c :=
      { huses with split := rfl, extract := hextract }
    refine ⟨by omega, used ++ brace :: after', hitems', huses'.block_eq hitems', ?_⟩
    rw [passedBy_action hkind (huses.header _ _), huses.split,
      passedBy_action hkind (huses.header _ _)]
  · obtain ⟨-, used, rfl, hstop, hagain⟩ := block_uses hkind hblock
    obtain ⟨n, hlt, -, rfl⟩ := exists_behind_block hitems rfl hstop
    refine ⟨n, rfl, ?_⟩
    intro next others hnext hk
    have hsplit : (Tokens.behind source m).items = t :: used ++ next :: others := by
      rw [hitems, hnext, List.cons_append]
    have hnext' : (Tokens.behind source n).items = [] ++ next :: others := hnext
    obtain ⟨hn, -⟩ := Tokens.behind_of_mem hnext'
    -- Both states look the same from their first token behind the block on.
    have hitems' : (Tokens.behind source' m).items =
        t :: used ++ (Tokens.behind source' n).items := by
      rw [halike.tokens hsplit hk, halike.tokens hnext' hk, List.nil_append]
    have hblock' := hagain source' (Tokens.behind source' n).items (Tokens.behind source' m).stop
    refine ⟨by omega, used ++ (Tokens.behind source' n).items, hitems', ?_, ?_⟩
    · rw [hblock', Tokens.stop_behind_eq source' m n]
    · rw [passedBy_block hkind hblock', passedBy_block hkind (hagain source _ _)]

/-- Reading is alike in two sources up to where they part, block by block from
the last one back. -/
theorem Reads.local {m n : Nat} {tree : Tree} (halike : Tokens.AlikeBefore source source' k)
    (h : Reads source (Tokens.behind source m) tree (Tokens.behind source n)) {next : Token}
    {others : List Token} (hnext : (Tokens.behind source n).items = next :: others)
    (hk : next.position.offset < k) :
    Reads source' (Tokens.behind source' m) tree (Tokens.behind source' n) := by
  suffices hstart : Reads source' (Tokens.behind source' m) tree (Tokens.behind source' n) ∧
      ∃ t items, (Tokens.behind source m).items = t :: items ∧ t.position.offset < k from hstart.1
  generalize hts : Tokens.behind source m = ts at h
  generalize hlast : Tokens.behind source n = last at h
  induction h generalizing m with
  | done ts =>
      obtain rfl := hlast
      rw [halike.congr hts hnext hk]
      exact ⟨.done _, next, others, hnext, hk⟩
  | step hitems hblock _ ih =>
      obtain rfl := hts
      obtain ⟨n₁, rfl, hstep⟩ := block_local halike hitems hblock
      obtain ⟨hreads, t₁, items₁, hitems₁, hk₁⟩ := ih rfl hlast
      obtain ⟨hlt, items', hitems', hblock', -⟩ := hstep t₁ items₁ hitems₁ hk₁
      exact ⟨.step hitems' hblock' hreads, _, _, hitems, hlt⟩

end Parser

end

/-! ## What stands before -/

namespace Position

theorem Follows.advance {base p : Position} (h : base.Follows p) (bs : List UInt8) :
    base.Follows (p.advance bs) := by
  induction bs generalizing p with
  | nil => exact h
  | cons b rest ih => exact ih (h.next b)

/-- Counting on and counting from elsewhere can be done in either order, for
positions that were counted from the same one. -/
theorem rebase_advance {base p : Position} (base' : Position) (h : base.Follows p)
    (bs : List UInt8) :
    base.rebase base' (p.advance bs) = (base.rebase base' p).advance bs := by
  induction bs generalizing p with
  | nil => rfl
  | cons b rest ih =>
      rw [advance_cons, ih (h.next b), rebase_next base' h b]
      rfl

end Position

/-- How lines move from one source to another, in which the same bytes stand
behind an offset. -/
def movedLine (source : List UInt8) (m : Nat) (source' : List UInt8) (m' line : Nat) : Nat :=
  line + (Position.ofOffset source' m').line - (Position.ofOffset source m).line

def Token.moved (source : List UInt8) (m : Nat) (source' : List UInt8) (m' : Nat) : Token → Token :=
  Token.rebase (Position.ofOffset source m) (Position.ofOffset source' m')

section

variable {source source' : List UInt8} {m m' : Nat} (hdrop : source.drop m = source'.drop m')

include hdrop

theorem drop_add_eq (j : Nat) : source.drop (m + j) = source'.drop (m' + j) := by
  rw [← List.drop_drop, hdrop, List.drop_drop]

/-- The same bytes at the end of two sources give the same tokens at their
places in each. -/
theorem Tokens.behind_moved (j : Nat) :
    (behind source' (m' + j)).items =
      (behind source (m + j)).items.map (Token.moved source m source' m') := by
  have hposition : (Position.ofOffset source m).rebase (Position.ofOffset source' m')
      (Position.ofOffset source (m + j)) = Position.ofOffset source' (m' + j) := by
    rw [← Position.advance_ofOffset, Position.rebase_advance _ (.refl _), Position.rebase_self,
      hdrop, Position.advance_ofOffset]
  have hfollows : (Position.ofOffset source m).Follows (Position.ofOffset source (m + j)) := by
    rw [← Position.advance_ofOffset]
    exact (Position.Follows.refl _).advance _
  have hscan := Scan.tokensFrom_rebase (Position.ofOffset source' m') hfollows 0
    (source.drop (m + j))
  rw [hposition] at hscan
  simp only [behind, scan]
  rw [← drop_add_eq hdrop]
  exact hscan

omit hdrop in
theorem offset_moved (hm : m ≤ source.length) (hm' : m' ≤ source'.length) (t : Token) :
    (Token.moved source m source' m' t).position.offset = t.position.offset + m' - m := by
  simp only [Token.moved, Token.rebase, Position.rebase, Position.offset_ofOffset hm,
    Position.offset_ofOffset hm']

namespace Parser

/-- A body is the same wherever it stands, and is closed as far behind its
opening brace. -/
theorem extract_moved {i c : Nat} {body : String}
    (h : Block.extract source (m + i) = .ok ⟨body, c⟩) :
    ∃ j, c + 1 = m + j ∧ ∃ c', c' + 1 = m' + j ∧
      Block.extract source' (m' + i) = .ok ⟨body, c'⟩ := by
  obtain ⟨inside, rest, hrest, hwhole, hbody⟩ := Block.extract_eq_ok_iff.mp h
  obtain ⟨rfl, rfl⟩ := Block.mk.inj hbody
  refine ⟨i + 1 + inside.length + 1, by omega, m' + i + 1 + inside.length, by omega, ?_⟩
  refine Block.extract_eq_ok_iff.mpr ⟨inside, rest, ?_, hwhole, rfl⟩
  rw [Nat.add_assoc, ← drop_add_eq hdrop, ← Nat.add_assoc, hrest]

/-- A body that lacks its end lacks it wherever it stands; only the line that
the error names is another one. -/
theorem extract_moved_error {i : Nat} {e : BlockError}
    (h : Block.extract source (m + i) = .error e) :
    ∃ e', Block.extract source' (m' + i) = .error e' := by
  rcases hextract : Block.extract source' (m' + i) with e' | ⟨body, c⟩
  · exact ⟨e', rfl⟩
  · obtain ⟨-, -, c', -, hback⟩ := extract_moved hdrop.symm hextract
    rw [h] at hback
    cases hback

/-- Where the same bytes stand behind two offsets, tokens move with the end of
their source. -/
theorem moves_moved (n n' : Nat) :
    Moves (Token.moved source m source' m') (movedLine source m source' m')
      (ParseError.rebase (Position.ofOffset source m) (Position.ofOffset source' m'))
      (Tokens.behind source n).stop (Tokens.behind source' n').stop := by
  have hstop : (Position.ofOffset source m).rebase (Position.ofOffset source' m')
      (Tokens.behind source n).stop = (Tokens.behind source' n').stop := by
    rw [Tokens.stop_behind_eq source n m, Tokens.stop_behind_eq source' n' m']
    simp only [Tokens.behind, Tokens.scan]
    rw [Position.rebase_advance _ (.refl _), Position.rebase_self, hdrop]
  rw [← hstop]
  exact moves_rebase _ _ _

/-- One block is read alike where the same bytes stand behind it and in it. -/
theorem block_moved (hm : m ≤ source.length) (hm' : m' ≤ source'.length) {j : Nat} {t : Token}
    {items : List Token} {tree : Tree} {later : Tokens}
    (hitems : (Tokens.behind source (m + j)).items = t :: items)
    (hblock : block source t ⟨items, (Tokens.behind source (m + j)).stop⟩ = .ok (tree, later)) :
    ∃ n, later = Tokens.behind source (m + n) ∧
      ∃ t' items', (Tokens.behind source' (m' + j)).items = t' :: items' ∧
        block source' t' ⟨items', (Tokens.behind source' (m' + j)).stop⟩ =
          .ok (tree.mapLines (movedLine source m source' m'), Tokens.behind source' (m' + n)) := by
  have hmoves := moves_moved hdrop (m + j) (m' + j)
  have hitems' := Tokens.behind_moved hdrop j
  rw [hitems, List.map_cons] at hitems'
  have hfirst : (Tokens.behind source (m + j)).items = [] ++ t :: items := hitems
  obtain ⟨hle, -⟩ := Tokens.behind_of_mem hfirst
  -- An action is read through its body's text; every other block commutes with the move.
  by_cases hkind : t.kind = .keyword .action
  · obtain ⟨a, used, brace, rest, c, rfl, rfl, huses⟩ := action_uses hkind hblock
    obtain ⟨hbrace, -⟩ := Tokens.behind_of_mem (huses.items_eq hitems)
    obtain ⟨i, hi⟩ : ∃ i, brace.position.offset = m + i := ⟨brace.position.offset - m, by omega⟩
    have hextract := huses.extract
    rw [hi] at hextract
    obtain ⟨n, hn, c', hc', hextract'⟩ := extract_moved hdrop hextract
    have hi' : (Token.moved source m source' m' brace).position.offset = m' + i := by
      rw [offset_moved hm hm', hi]
      omega
    rw [← hi'] at hextract'
    have hsignature := commutes_signature hmoves items
    rw [huses.split, huses.header] at hsignature
    have hline : (a.mapLine (movedLine source m source' m')).line =
        (Token.moved source m source' m' t).position.line :=
      congrArg (movedLine source m source' m') huses.line
    obtain ⟨used', huses'⟩ := signature_uses (t := Token.moved source m source' m' t) hkind hline
      hsignature huses.kind hextract'
    rw [← huses.split] at huses'
    have hblock' := huses'.block_eq hitems'
    rw [hc'] at hblock'
    exact ⟨n, by rw [huses.skipBody_eq hitems, hn], _, _, hitems', hblock'⟩
  · obtain ⟨-, used, rfl, hstop, -⟩ := block_uses hkind hblock
    obtain ⟨n, hlt, -, rfl⟩ := exists_behind_block hitems rfl hstop
    obtain ⟨n, rfl⟩ : ∃ i, n = m + i := ⟨n - m, by omega⟩
    refine ⟨n, rfl, _, _, hitems', ?_⟩
    have hblock' := block_map hmoves hkind hblock source'
    rw [Tokens.stop_behind_eq source' (m' + j) (m' + n)] at hblock' ⊢
    rw [← Tokens.behind_moved hdrop] at hblock'
    exact hblock'

/-- Reading from some bytes on gives the same wherever these stand, up to its
lines, and comes as far. -/
theorem Reads.moved_to (hm : m ≤ source.length) (hm' : m' ≤ source'.length) {j : Nat} {tree : Tree}
    {last : Tokens} (h : Reads source (Tokens.behind source (m + j)) tree last) :
    ∃ n, last = Tokens.behind source (m + n) ∧
      Reads source' (Tokens.behind source' (m' + j))
        (tree.mapLines (movedLine source m source' m')) (Tokens.behind source' (m' + n)) := by
  generalize hts : Tokens.behind source (m + j) = ts at h
  induction h generalizing j with
  | done ts => exact ⟨j, hts.symm, .done _⟩
  | step hitems hblock _ ih =>
      obtain rfl := hts
      obtain ⟨n, rfl, t', items', hitems', hblock'⟩ := block_moved hdrop hm hm' hitems hblock
      obtain ⟨last, hlast, hreads⟩ := ih rfl
      rw [Tree.mapLines_append]
      exact ⟨last, hlast, .step hitems' hblock' hreads⟩

theorem Reads.moved (hm : m ≤ source.length) (hm' : m' ≤ source'.length) {tree : Tree}
    {last : Tokens} (h : Reads source (Tokens.behind source m) tree last)
    (hlast : last.items = []) :
    ∃ last', Reads source' (Tokens.behind source' m')
      (tree.mapLines (movedLine source m source' m')) last' ∧ last'.items = [] := by
  obtain ⟨n, rfl, hreads⟩ := Reads.moved_to hdrop hm hm' (j := 0) h
  refine ⟨_, hreads, ?_⟩
  rw [Tokens.behind_moved hdrop, hlast]
  rfl

/-- Reading from some bytes on fails alike wherever these stand, up to its
position. -/
theorem Fails.moved (hm : m ≤ source.length) (hm' : m' ≤ source'.length) {j : Nat} {e : ParseError}
    (h : Fails source (Tokens.behind source (m + j)) (.parse e)) :
    Fails source' (Tokens.behind source' (m' + j))
      (.parse (e.rebase (Position.ofOffset source m) (Position.ofOffset source' m'))) := by
  obtain ⟨before, mid, t, items, hreads, hitems, herror⟩ := h
  obtain ⟨n, rfl, hreads'⟩ := Reads.moved_to hdrop hm hm' hreads
  have hitems' := Tokens.behind_moved hdrop n
  rw [hitems, List.map_cons] at hitems'
  have herror' := block_map_error (moves_moved hdrop (m + n) (m' + n)) herror source'
  exact ⟨_, _, _, _, hreads', hitems', herror'⟩

end Parser

end

end BlockLang
