import BlockLang.Proofs.BlockFailures
import BlockLang.Proofs.Concatenation
import BlockLang.Proofs.Layout

/-! # Completing a source

Where a block may go on behind the tokens that were read, some text makes a source that can be read
out of what stands before the next token. The text puts each token that is missing on a line of its
own. Blocks that were read before are read again, for a block looks at nothing behind its last token
and reading an action goes on behind the brace that closes its body.
-/

namespace BlockLang

/-! ## Texts of given tokens -/

namespace Token.Kind

def lexeme : Kind → String
  | keyword k => k.spelling
  | verb v => v.spelling
  | name => "a"
  | string => "\"\""
  | number => "0"
  | unterminated => "\""
  | mark m => m.spelling

def spell : List Kind → String
  | [] => ""
  | k :: kinds => k.lexeme ++ "\n" ++ spell kinds

end Token.Kind

namespace Scan

theorem kinds_tokensFrom (p : Position) (bs : List UInt8) :
    (tokensFrom p 0 bs).map Token.kind = (tokensFrom .start 0 bs).map Token.kind := by
  have hmoved := tokensFrom_rebase p (Position.Follows.refl .start) 0 bs
  rw [Position.rebase_self] at hmoved
  rw [hmoved, List.map_map]
  rfl

/-- The text of a kind is one token of this kind, for every keyword, verb and
mark there is. -/
theorem kinds_lexeme (k : Token.Kind) (p : Position) :
    (tokensFrom p 0 (Text.bytes k.lexeme)).map Token.kind = [k] := by
  rw [kinds_tokensFrom]
  cases k with
  | keyword k => cases k <;> decide +kernel
  | verb v => cases v <;> decide +kernel
  | mark m => cases m <;> decide +kernel
  | name | string | number | unterminated => decide +kernel

theorem endsInComment_lexeme (k : Token.Kind) :
    endsInComment 0 (Text.bytes k.lexeme) = false := by
  cases k with
  | keyword k => cases k <;> decide +kernel
  | verb v => cases v <;> decide +kernel
  | mark m => cases m <;> decide +kernel
  | name | string | number | unterminated => decide +kernel

/-- Kinds that are spelled out are read back as tokens of these kinds, whatever
stands behind. -/
theorem tokensFrom_spell (kinds : List Token.Kind) (p : Position) (tail : List UInt8) :
    ∃ ts, ts.map Token.kind = kinds ∧ tokensFrom p 0 (Text.bytes (Token.Kind.spell kinds) ++ tail) =
      ts ++ tokensFrom (p.advance (Text.bytes (Token.Kind.spell kinds))) 0 tail := by
  induction kinds generalizing p with
  | nil => exact ⟨[], rfl, rfl⟩
  | cons k kinds ih =>
      have hnewline : Text.bytes "\n" = ['\n'.toUInt8] := by decide +kernel
      have hsplit : Text.bytes (Token.Kind.spell (k :: kinds)) =
          Text.bytes k.lexeme ++ '\n'.toUInt8 :: Text.bytes (Token.Kind.spell kinds) := by
        simp [Token.Kind.spell, Text.bytes_append, hnewline]
      obtain ⟨ts, hts, hrest⟩ := ih ((p.advance (Text.bytes k.lexeme)).next '\n'.toUInt8)
      refine ⟨tokensFrom p 0 (Text.bytes k.lexeme) ++ ts, ?_, ?_⟩
      · rw [List.map_append, kinds_lexeme, hts]
        rfl
      · rw [hsplit, List.append_assoc, List.cons_append,
          tokensFrom_newline (Nat.zero_le _) (endsInComment_lexeme k), hrest, List.append_assoc,
          Position.advance_append]
        rfl

/-! ## Closing a comment -/

/-- Bytes that end in a comment have its opening mark somewhere, and not inside
a chunk that was begun before them. -/
theorem exists_comment {skip : Nat} {xs : List UInt8} (h : endsInComment skip xs = true) :
    ∃ before inside, xs = before ++ '/'.toUInt8 :: '*'.toUInt8 :: inside ∧
      skip ≤ before.length := by
  induction xs generalizing skip with
  | nil => cases h
  | cons b rest ih =>
      cases skip with
      | succ left =>
          obtain ⟨before, inside, rfl, hle⟩ := ih h
          exact ⟨b :: before, inside, rfl, Nat.succ_le_succ hle⟩
      | zero =>
          simp only [endsInComment, Bool.or_eq_true, decide_eq_true_eq] at h
          rcases h with ⟨rfl, hstar, -⟩ | h
          · obtain ⟨inside, rfl⟩ := List.head?_eq_some_iff.mp hstar
            exact ⟨[], inside, rfl, Nat.le_refl _⟩
          · obtain ⟨before, inside, rfl, -⟩ := ih h
            exact ⟨b :: before, inside, rfl, Nat.zero_le _⟩

theorem toCommentEnd_of_open {inside : List UInt8}
    (h : ¬ ['*'.toUInt8, '/'.toUInt8] <:+: inside) : toCommentEnd inside = inside.length := by
  fun_induction toCommentEnd inside with
  | case1 => rfl
  | case2 => rfl
  | case3 a b rest hend =>
      obtain ⟨rfl, rfl⟩ := hend
      exact absurd ⟨[], rest, rfl⟩ h
  | case4 a b rest _ ih =>
      rw [ih fun hinfix => h (List.infix_cons hinfix)]
      rfl

theorem tokensFrom_comment (p : Position) (inside : List UInt8) :
    tokensFrom p 0 ('/'.toUInt8 :: '*'.toUInt8 :: inside) =
      tokensFrom (p.next '/'.toUInt8) (toCommentEnd inside + 1) ('*'.toUInt8 :: inside) := by
  have hslash : ¬ '*'.toUInt8 = '/'.toUInt8 := by decide
  have hread : Chunk.read '/'.toUInt8 ('*'.toUInt8 :: inside) =
      .skip (toCommentEnd inside + 1) := by
    simp [Chunk.read, hslash, Nat.add_comm]
  simp only [tokensFrom, hread, Chunk.skip]

/-- Closing the comment in which some bytes end adds nothing to their tokens. -/
theorem tokensFrom_closeComment {p : Position} {skip : Nat} {xs : List UInt8}
    (h : endsInComment skip xs = true) (ys : List UInt8) :
    tokensFrom p skip (xs ++ '*'.toUInt8 :: '/'.toUInt8 :: ys) =
      tokensFrom p skip xs ++
        tokensFrom (p.advance (xs ++ ['*'.toUInt8, '/'.toUInt8])) 0 ys := by
  induction xs generalizing p skip with
  | nil => cases h
  | cons b rest ih =>
      cases skip with
      | succ left => exact ih h
      | zero =>
          simp only [endsInComment, Bool.or_eq_true, decide_eq_true_eq] at h
          -- Either the comment starts at this byte, or it is open behind the chunk read here.
          rcases h with ⟨rfl, hstar, hopen⟩ | h
          · obtain ⟨inside, rfl⟩ := List.head?_eq_some_iff.mp hstar
            rw [List.tail_cons] at hopen
            have hlength : inside.length + 2 + 1 =
                ('*'.toUInt8 :: inside ++ ['*'.toUInt8, '/'.toUInt8]).length := by simp
            have hclosed := tokensFrom_length (p.next '/'.toUInt8)
              ('*'.toUInt8 :: inside ++ ['*'.toUInt8, '/'.toUInt8]) ys
            have hunclosed := tokensFrom_length (p.next '/'.toUInt8) ('*'.toUInt8 :: inside) []
            rw [List.append_nil, List.length_cons] at hunclosed
            rw [← hlength, List.append_assoc] at hclosed
            rw [List.cons_append, List.cons_append, tokensFrom_comment, tokensFrom_comment,
              toCommentEnd_of_not_infix hopen, toCommentEnd_of_open hopen, hunclosed]
            exact hclosed
          · obtain ⟨before, inside, rfl, hmore⟩ := exists_comment h
            have hread : Chunk.read b (before ++ '/'.toUInt8 :: '*'.toUInt8 :: inside ++
                '*'.toUInt8 :: '/'.toUInt8 :: ys) =
                  Chunk.read b (before ++ '/'.toUInt8 :: '*'.toUInt8 :: inside) := by
              rw [List.append_assoc]
              exact read_local (.refl _) _ (by decide) hmore
            rw [List.cons_append, tokensFrom, tokensFrom, hread]
            simp only [ih h]
            split <;> rfl

end Scan

theorem Tokens.behind_closeComment {xs : List UInt8} {m : Nat} (hm : m ≤ xs.length)
    (h : Scan.endsInComment 0 (xs.drop m) = true) (ys : List UInt8) :
    (behind (xs ++ '*'.toUInt8 :: '/'.toUInt8 :: ys) m).items =
      (behind xs m).items ++
        (behind (xs ++ '*'.toUInt8 :: '/'.toUInt8 :: ys) (xs.length + 2)).items := by
  have hposition : Position.ofOffset (xs ++ '*'.toUInt8 :: '/'.toUInt8 :: ys) m =
      Position.ofOffset xs m := by
    rw [Position.ofOffset, Position.ofOffset, List.take_append_of_le_length hm]
  have hend : (Position.ofOffset xs m).advance (xs.drop m ++ ['*'.toUInt8, '/'.toUInt8]) =
      Position.ofOffset (xs ++ '*'.toUInt8 :: '/'.toUInt8 :: ys) (xs.length + 2) := by
    rw [Position.ofOffset, Position.ofOffset, ← Position.advance_append, ← List.append_assoc,
      List.take_append_drop, List.take_length_add_append]
    rfl
  simp only [behind, scan]
  rw [List.drop_append_of_le_length hm, Scan.tokensFrom_closeComment h, hposition, hend,
    List.drop_length_add_append]
  rfl

theorem Tokens.behind_of_drop_nil {source : List UInt8} {m : Nat} (h : source.drop m = []) :
    (behind source m).items = [] := by
  simp only [behind, scan, h]
  rfl

/-- Where kinds are spelled out, tokens of these kinds are next, and behind them
comes what stands behind their text. -/
theorem Tokens.behind_spell {source tail : List UInt8} {m : Nat} {kinds : List Token.Kind}
    (h : source.drop m = Text.bytes (Token.Kind.spell kinds) ++ tail) :
    ∃ ts n, ts.map Token.kind = kinds ∧ (behind source m).items = ts ++ (behind source n).items ∧
      source.drop n = tail := by
  obtain ⟨ts, hts, hscan⟩ := Scan.tokensFrom_spell kinds (Position.ofOffset source m) tail
  have htail : source.drop (m + (Text.bytes (Token.Kind.spell kinds)).length) = tail := by
    rw [← List.drop_drop, h, List.drop_left]
  have hposition := Position.advance_ofOffset source m (Text.bytes (Token.Kind.spell kinds)).length
  rw [h, List.take_left] at hposition
  refine ⟨ts, _, hts, ?_, htail⟩
  simp only [behind, scan, h, hscan, htail, hposition]

namespace Parser

open Grammar

variable {source source' : List UInt8} {k : Nat}

/-! ## Passing over tokens -/

/-- Reading blocks one after another, with the tokens that this comes to. -/
inductive Passes (source : List UInt8) : Tokens → List Token → Tokens → Prop
  | done (ts : Tokens) : Passes source ts [] ts
  | step {ts later last : Tokens} {t : Token} {items passed : List Token} {tree : Tree}
      (hitems : ts.items = t :: items)
      (hblock : block source t ⟨items, ts.stop⟩ = .ok (tree, later))
      (hmore : Passes source later passed last) :
      Passes source ts (passedBy source t ⟨items, ts.stop⟩ ++ passed) last

theorem Reads.exists_passes {ts last : Tokens} {tree : Tree} (h : Reads source ts tree last) :
    ∃ passed, Passes source ts passed last := by
  induction h with
  | done ts => exact ⟨[], .done ts⟩
  | step hitems hblock _ ih =>
      obtain ⟨passed, hmore⟩ := ih
      exact ⟨_, .step hitems hblock hmore⟩

theorem Passes.exists_reads {ts last : Tokens} {passed : List Token}
    (h : Passes source ts passed last) : ∃ tree, Reads source ts tree last := by
  induction h with
  | done ts => exact ⟨{}, .done ts⟩
  | step hitems hblock _ ih =>
      obtain ⟨tree, hmore⟩ := ih
      exact ⟨_, .step hitems hblock hmore⟩

/-- Tokens are passed over alike in two sources up to where these part, and the
same tokens are seen. -/
theorem Passes.resumed {m n : Nat} {passed : List Token}
    (halike : Tokens.AlikeBefore source source' k)
    (h : Passes source (Tokens.behind source m) passed (Tokens.behind source n))
    {next : Token} {others : List Token} (hnext : (Tokens.behind source n).items = next :: others)
    (hk : next.position.offset < k) :
    Passes source' (Tokens.behind source' m) passed (Tokens.behind source' n) := by
  suffices hstart : Passes source' (Tokens.behind source' m) passed (Tokens.behind source' n) ∧
      ∃ t items, (Tokens.behind source m).items = t :: items ∧ t.position.offset < k from hstart.1
  generalize hts : Tokens.behind source m = ts at h
  generalize hlast : Tokens.behind source n = last at h
  induction h generalizing m with
  | done ts =>
      obtain rfl := hlast
      rw [halike.congr hts hnext hk]
      exact ⟨.done _, next, others, hnext, hk⟩
  | step hitems hblock _ ih =>
      obtain rfl := hts
      obtain ⟨n₁, rfl, hstep⟩ := block_local halike hitems hblock
      obtain ⟨hmore, t₁, items₁, hitems₁, hk₁⟩ := ih rfl hlast
      obtain ⟨hlt, items', hitems', hblock', hpassed⟩ := hstep t₁ items₁ hitems₁ hk₁
      refine ⟨?_, _, _, hitems, hlt⟩
      rw [← hpassed]
      exact .step hitems' hblock' hmore

/-! ## Going on behind some tokens -/

/-- An empty body ends an action, and with it the source. -/
theorem reads_emptyBody {m n : Nat} {t : Token} {used : List Token} {found : String × List String}
    (hkind : t.kind = .keyword .action) (htaken : Taken signature used found)
    (hitems : (Tokens.behind source m).items = t :: used ++ (Tokens.behind source n).items)
    (hdrop : source.drop n = ['{'.toUInt8, '}'.toUInt8]) :
    ∃ tree last, Reads source (Tokens.behind source m) tree last ∧ last.items = [] := by
  have hlength := congrArg List.length hdrop
  simp only [List.length_drop, List.length_cons, List.length_nil] at hlength
  have hclose : source.drop (n + 1) = [] ++ '}'.toUInt8 :: [] := by
    rw [← List.drop_drop, hdrop]
    rfl
  obtain ⟨brace, after, hbehind, hopen, hoffset⟩ : ∃ brace after,
      (Tokens.behind source n).items = brace :: after ∧ brace.kind = .mark .braceOpen ∧
        brace.position.offset = n :=
    ⟨_, _, Tokens.behind_of_brace hdrop, rfl, Position.offset_ofOffset (by omega)⟩
  rw [hbehind] at hitems
  obtain ⟨line, hlocate⟩ := Tokens.locate_of_brace hitems hopen
  -- The body between the two braces is empty, so it ends at the second one.
  have hextract : Block.extract source brace.position.offset =
      .ok ⟨Text.trim (Text.ofBytes []), n + 1⟩ := by
    rw [hoffset]
    exact Block.extract_eq_ok_iff.mpr ⟨[], [], hclose, ⟨.code, rfl, rfl⟩, rfl⟩
  have hsignature := htaken (Tokens.behind source m).stop (brace :: after)
  have hblock := block_of_brace hkind hsignature hopen hlocate
  rw [hextract] at hblock
  simp only at hblock
  rw [skipBody_eq_behind hitems hextract] at hblock
  refine ⟨_, _, .step hitems hblock (.done _), ?_⟩
  apply Tokens.behind_of_drop_nil
  rw [List.drop_eq_nil_iff]
  simp only [Block.endOffset]
  omega

/-- Where a block may go on, some text ends it, and the source with it. -/
theorem Extendable.exists_text {used : List Token} (h : Extendable used) :
    ∃ text : String, ∀ source m n, source.drop n = Text.bytes text →
      (Tokens.behind source m).items = used ++ (Tokens.behind source n).items →
        ∃ tree last, Reads source (Tokens.behind source m) tree last ∧ last.items = [] := by
  cases h with
  | start =>
      refine ⟨"", ?_⟩
      intro source m n hdrop hitems
      refine ⟨_, _, .done _, ?_⟩
      rw [hitems, Tokens.behind_of_drop_nil hdrop]
      rfl
  | block h =>
      obtain ⟨kinds, hkinds⟩ := h
      refine ⟨Token.Kind.spell kinds, ?_⟩
      intro source m n hdrop hitems
      rw [← List.append_nil (Text.bytes _)] at hdrop
      obtain ⟨ts, n', hts, hbehind, hnil⟩ := Tokens.behind_spell hdrop
      obtain ⟨tree, hblock⟩ := hkinds ts hts
      rw [hbehind, Tokens.behind_of_drop_nil hnil, ← List.append_assoc] at hitems
      rw [After] at hblock
      generalize used ++ ts = all at hitems hblock
      cases all with
      | nil => cases hblock
      | cons t us =>
          exact ⟨_, _, .step hitems (block_of_isBlock source hblock [] _) (.done _), rfl⟩
  -- A signature is completed with an empty body, the shortest text an action ends in.
  | action ht h =>
      obtain ⟨kinds, hkinds⟩ := h
      refine ⟨Token.Kind.spell kinds ++ "{}", ?_⟩
      intro source m n hdrop hitems
      have hbraces : Text.bytes "{}" = ['{'.toUInt8, '}'.toUInt8] := by decide +kernel
      rw [Text.bytes_append, hbraces] at hdrop
      obtain ⟨ts, o, hts, hbehind, hopen⟩ := Tokens.behind_spell hdrop
      obtain ⟨found, htaken⟩ := hkinds ts hts
      rw [hbehind, ← List.append_assoc] at hitems
      exact reads_emptyBody ht htaken hitems hopen

/-- Whether reading comes to some tokens: it passes over some of them with whole
blocks, and `used` is where the next block begins. -/
def Reaches (source : List UInt8) (passed used rest : List Token) : Prop :=
  ∃ mid, Passes source (Tokens.ofSource source) passed mid ∧ mid.items = used ++ rest

/-- Whether some bytes begin a source that can be read, in which reading comes
to these tokens. -/
def Begins (start : List UInt8) (passed used : List Token) : Prop :=
  ∃ (text : String) (tree : Tree) (rest : List Token),
    Tree.ofBytes (start ++ Text.bytes text) = .ok tree ∧
      Reaches (start ++ Text.bytes text) passed used rest

section

variable {m : Nat} {passed used : List Token}
  (hpasses : Passes source (Tokens.ofSource source) passed (Tokens.behind source m))

include hpasses

/-- A source that can be read, with what comes next taken from another one. -/
theorem reaches_of_alike {n : Nat} {next : Token} {others : List Token} {tree : Tree}
    {last : Tokens} (halike : Tokens.AlikeBefore source source' k)
    (hnext : (Tokens.behind source m).items = next :: others) (hk : next.position.offset < k)
    (hitems : (Tokens.behind source' m).items = used ++ (Tokens.behind source' n).items)
    (hreads : Reads source' (Tokens.behind source' m) tree last) (hlast : last.items = []) :
    (∃ tree, Tree.ofBytes source' = .ok tree) ∧
      Reaches source' passed used (Tokens.behind source' n).items := by
  rw [← Tokens.behind_zero] at hpasses
  have hpasses' := hpasses.resumed halike hnext hk
  obtain ⟨before, hbefore⟩ := hpasses'.exists_reads
  rw [Tokens.behind_zero] at hbefore hpasses'
  exact ⟨⟨_, ofBytes_eq_ok_iff.mpr ⟨last, hbefore.append hreads, hlast⟩⟩, _, hpasses', hitems⟩

/-- What stands before a token can be completed where a block may go on before
the token. A newline takes the place of the token, so that nothing is joined to
what was there. -/
theorem begins_of_token {t : Token} {later : List Token} (hextendable : Extendable used)
    (hitems : (Tokens.behind source m).items = used ++ t :: later) :
    Begins (source.take t.position.offset) passed used := by
  obtain ⟨text, htext⟩ := hextendable.exists_text
  obtain ⟨-, hlt, -, -⟩ := Tokens.behind_of_mem hitems
  generalize hstart : source.take t.position.offset = start
  have hlength : start.length = t.position.offset := by
    rw [← hstart, List.length_take_of_le (Nat.le_of_lt hlt)]
  obtain ⟨tail, rfl⟩ : ∃ tail, source = start ++ tail :=
    ⟨_, by rw [← hstart, List.take_append_drop]⟩
  -- A line break ends whatever token the cut text ends in, so what was read before it stands.
  have halike : Tokens.AlikeBefore (start ++ tail) (start ++ '\n'.toUInt8 :: Text.bytes text)
      (start.length + 1) := Tokens.alikeBefore_blank rfl _
  have hnewline : Scan.Filler ['\n'.toUInt8] := ⟨_, [], rfl, rfl, .nil⟩
  have hskip : (Tokens.behind (start ++ '\n'.toUInt8 :: Text.bytes text) start.length).items =
      (Tokens.behind (start ++ '\n'.toUInt8 :: Text.bytes text) (start.length + 1)).items :=
    Tokens.behind_filler hnewline
  have hitems' := halike.tokens hitems (by omega)
  rw [← hlength, hskip] at hitems'
  have hfirst : ∃ next others, used ++ t :: later = next :: others ∧
      next.position.offset < start.length + 1 := by
    cases used with
    | nil => exact ⟨t, later, rfl, by omega⟩
    | cons u us =>
        have hbefore := Tokens.offset_lt_of_split hitems
        exact ⟨u, _, rfl, by omega⟩
  obtain ⟨next, others, hnext, hk⟩ := hfirst
  obtain ⟨_, last, hreads, hlast⟩ := htext _ m _ (drop_newline start (Text.bytes text)) hitems'
  obtain ⟨⟨tree, htree⟩, hreaches⟩ :=
    reaches_of_alike hpasses halike (hitems.trans hnext) hk hitems' hreads hlast
  have hbytes : Text.bytes ("\n" ++ text) = '\n'.toUInt8 :: Text.bytes text := by
    rw [Text.bytes_append]
    rfl
  rw [← hbytes] at htree hreaches
  exact ⟨_, tree, _, htree, hreaches⟩

/-- All of a source can be completed where a block may go on at its end. -/
theorem begins_of_end {next : Token} {others : List Token}
    (hextendable : Extendable (next :: others))
    (hitems : (Tokens.behind source m).items = next :: others) :
    Begins source passed (next :: others) := by
  obtain ⟨text, htext⟩ := hextendable.exists_text
  have hfirst : (Tokens.behind source m).items = [] ++ next :: others := hitems
  obtain ⟨hle, hlt, -, -⟩ := Tokens.behind_of_mem hfirst
  have hm : m ≤ source.length := by omega
  -- An open block comment has to be closed first; a newline ends everything else.
  obtain ⟨gap, hgap⟩ : ∃ gap : String,
      (Tokens.behind (source ++ Text.bytes (gap ++ text)) m).items = next :: others ++
        (Tokens.behind (source ++ Text.bytes (gap ++ text))
          (source.length + (Text.bytes gap).length)).items := by
    cases hcomment : Scan.endsInComment 0 (source.drop m) with
    | false =>
        refine ⟨"\n", ?_⟩
        rw [Text.bytes_append, ← hitems]
        exact Tokens.behind_newline hm hcomment (Text.bytes text)
    | true =>
        refine ⟨"*/", ?_⟩
        rw [Text.bytes_append, ← hitems]
        exact Tokens.behind_closeComment hm hcomment (Text.bytes text)
  have hdrop : (source ++ Text.bytes (gap ++ text)).drop
      (source.length + (Text.bytes gap).length) = Text.bytes text := by
    rw [Text.bytes_append, List.drop_length_add_append, List.drop_left]
  have halike : Tokens.AlikeBefore source (source ++ Text.bytes (gap ++ text)) source.length := by
    apply Tokens.AlikeBefore.of_take
    rw [List.take_length, List.take_left]
  obtain ⟨_, last, hreads, hlast⟩ := htext _ m _ hdrop hgap
  obtain ⟨⟨tree, htree⟩, hreaches⟩ :=
    reaches_of_alike hpasses halike hitems hlt hgap hreads hlast
  exact ⟨_, tree, _, htree, hreaches⟩

end

end Parser

end BlockLang
