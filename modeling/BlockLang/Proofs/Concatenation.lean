import BlockLang.Proofs.BlockRecognition
import BlockLang.Proofs.ErrorPositions
import BlockLang.Proofs.Lists
import BlockLang.Proofs.Opacity
import Mathlib.Data.List.Infix

/-! # Concatenating sources

Two sources with a newline between them declare what the first declares and then what the second
does, further down. A newline ends every chunk but a block comment, so the only way for the first
source to reach into the second is a comment that lacks its end.
-/

namespace BlockLang

/-! ## A newline ends a chunk -/

namespace Scan

/-- Whether bytes end inside a block comment that lacks its end. The first
`skip` of them belong to a chunk that was read before. -/
def endsInComment (skip : Nat) : List UInt8 → Bool
  | [] => false
  | b :: rest =>
    match skip with
    | left + 1 => endsInComment left rest
    | 0 =>
      (b = '/'.toUInt8 ∧ rest.head? = some '*'.toUInt8 ∧
        ¬ ['*'.toUInt8, '/'.toUInt8] <:+: rest.tail : Bool) ||
      endsInComment (Chunk.read b rest).more rest

theorem toNumberEnd_newline (xs ys : List UInt8) :
    toNumberEnd (xs ++ '\n'.toUInt8 :: ys) = toNumberEnd xs := by
  have hstop : isDigit '\n'.toUInt8 = false := by decide
  have hdigits := List.takeWhile_append_stop hstop
  have hpoint : ¬ '\n'.toUInt8 = '.'.toUInt8 := by decide
  simp only [toNumberEnd, hdigits,
    List.drop_append_of_le_length (List.takeWhile_sublist isDigit).length_le]
  cases xs.drop (xs.takeWhile isDigit).length with
  | nil => simp [hpoint]
  | cons point rest => simp only [List.cons_append, hdigits]

/-- A string is over at a newline at the latest, so a newline behind a source
changes none of its strings. -/
theorem quotation_append_newline (xs ys : List UInt8) :
    quotation (xs ++ '\n'.toUInt8 :: ys) = quotation xs := by
  induction xs using List.twoStepInduction with
  | nil => exact quotation_newline ys
  | singleton x =>
      rw [List.singleton_append, quotation.eq_def, quotation.eq_def [x]]
      simp only [if_true, quotation_newline]
      rfl
  | cons_cons x x' rest ih ih' =>
      rw [List.cons_append, List.cons_append, quotation.eq_def, quotation.eq_def (x :: x' :: rest)]
      simp only [ih]
      rw [← List.cons_append, ih']

/-- A comment that is closed is closed where it was, whatever is added. -/
theorem toCommentEnd_append {xs : List UInt8} (h : ['*'.toUInt8, '/'.toUInt8] <:+: xs)
    (ys : List UInt8) : toCommentEnd (xs ++ ys) = toCommentEnd xs := by
  induction xs with
  | nil => simp at h
  | cons x xs ih =>
      cases xs with
      | nil => simp [List.infix_cons_iff] at h
      | cons x' rest =>
          simp only [List.cons_append, toCommentEnd]
          split_ifs with hend
          · rfl
          · rcases List.infix_cons_iff.mp h with hprefix | hrest
            · simp_all
            · exact congrArg (· + 1) (ih hrest)

theorem toCommentEnd_le (xs : List UInt8) : toCommentEnd xs ≤ xs.length := by
  fun_induction toCommentEnd xs with
  | case1 => simp
  | case2 => simp
  | case3 a b rest h => simp
  | case4 a b rest h ih => simpa using ih

theorem toNumberEnd_le (xs : List UInt8) : toNumberEnd xs ≤ xs.length := by
  have hwhole := (List.takeWhile_sublist (l := xs) isDigit).length_le
  simp only [toNumberEnd]
  split
  next point rest hdrop =>
    have hlength := congrArg List.length hdrop
    have hfraction := (List.takeWhile_sublist (l := rest) isDigit).length_le
    simp only [List.length_drop, List.length_cons] at hlength
    split_ifs <;> omega
  next => exact hwhole

theorem size_quotation_le (xs : List UInt8) : (quotation xs).size ≤ xs.length := by
  induction xs using List.twoStepInduction with
  | nil => simp [quotation]
  | singleton x =>
      rw [quotation.eq_def]
      simp only
      split_ifs <;> simp [quotation, size_cons]
  | cons_cons x x' rest ih ih' =>
      have hrest := ih' x'
      rw [quotation.eq_def]
      simp only [List.length_cons] at hrest ⊢
      split_ifs <;> simp only [size_cons] <;> omega

/-- No chunk is longer than what is left, so a chunk never reaches past the end
of its source. -/
theorem more_read_le (b : UInt8) (rest : List UInt8) : (Chunk.read b rest).more ≤ rest.length := by
  simp only [Chunk.read]
  split_ifs with hline hblock harrow hquote hnumber hword
  · exact (List.takeWhile_sublist _).length_le
  · have htail := toCommentEnd_le rest.tail
    cases rest with
    | nil => simp at hblock
    | cons x rest =>
        simp only [Chunk.skip, List.tail_cons, List.length_cons] at htail ⊢
        omega
  · cases rest with
    | nil => simp at harrow
    | cons x rest => simp
  · exact size_quotation_le rest
  · exact toNumberEnd_le rest
  · exact (List.takeWhile_sublist _).length_le
  · split <;> simp [Chunk.skip]

theorem head?_newline (rest : List UInt8) {c : UInt8} (hc : c ≠ '\n'.toUInt8) (ys : List UInt8) :
    (rest ++ '\n'.toUInt8 :: ys).head? = some c ↔ rest.head? = some c := by
  cases rest with
  | nil => simpa using hc.symm
  | cons x rest => rfl

/-- A newline behind a source changes no chunk of it, except a block comment
that lacks its end. -/
theorem read_newline {b : UInt8} {rest : List UInt8}
    (h : b = '/'.toUInt8 → rest.head? = some '*'.toUInt8 →
      ['*'.toUInt8, '/'.toUInt8] <:+: rest.tail) (ys : List UInt8) :
    Chunk.read b (rest ++ '\n'.toUInt8 :: ys) = Chunk.read b rest := by
  have hslash := head?_newline rest (c := '/'.toUInt8) (by decide) ys
  have hstar := head?_newline rest (c := '*'.toUInt8) (by decide) ys
  have hangle := head?_newline rest (c := '>'.toUInt8) (by decide) ys
  have hdigit : (rest ++ '\n'.toUInt8 :: ys).head?.any isDigit = rest.head?.any isDigit := by
    cases rest <;> rfl
  have htake : ∀ {n : Nat}, n ≤ rest.length →
      (rest ++ '\n'.toUInt8 :: ys).take n = rest.take n :=
    fun hn => List.take_append_of_le_length hn
  simp only [Chunk.read, hslash, hstar, hangle, hdigit]
  split_ifs with hline hblock harrow hquote hnumber hword
  · rw [toLineEnd, List.takeWhile_append_stop (by decide), toLineEnd]
  · have hclosed := h hblock.1 hblock.2
    cases rest with
    | nil => simp at hclosed
    | cons x rest =>
        simp only [List.cons_append, List.tail_cons] at hclosed ⊢
        rw [toCommentEnd_append hclosed]
  · rfl
  · rw [quotation_append_newline]
  · rw [toNumberEnd_newline, Chunk.verbatim, Chunk.verbatim, htake (toNumberEnd_le rest)]
  · rw [List.takeWhile_append_stop (by decide), Chunk.verbatim, Chunk.verbatim,
      htake (List.takeWhile_sublist _).length_le]
  · rfl

/-- Tokens on both sides of a newline are those of each side, unless the first
side ends inside a comment. -/
theorem tokensFrom_newline {p : Position} {skip : Nat} {xs : List UInt8} (hskip : skip ≤ xs.length)
    (h : endsInComment skip xs = false) (ys : List UInt8) :
    tokensFrom p skip (xs ++ '\n'.toUInt8 :: ys) =
      tokensFrom p skip xs ++ tokensFrom ((p.advance xs).next '\n'.toUInt8) 0 ys := by
  induction xs generalizing p skip with
  | nil =>
      obtain rfl : skip = 0 := Nat.le_zero.mp hskip
      rfl
  | cons x rest ih =>
      cases skip with
      | succ left => exact ih (Nat.le_of_succ_le_succ hskip) h
      | zero =>
          simp only [endsInComment, Bool.or_eq_false_iff] at h
          have hread : Chunk.read x (rest ++ '\n'.toUInt8 :: ys) = Chunk.read x rest := by
            apply read_newline
            intro hslash hstar
            simpa [hslash, hstar] using h.1
          simp only [List.cons_append, tokensFrom, hread, ih (more_read_le x rest) h.2]
          split <;> rfl

end Scan

/-! ## Reading on behind a source -/

namespace Tokens

/-- The tokens of the first source are followed by those of the second, which
stand on lines of their own. -/
theorem behind_newline {xs : List UInt8} {m : Nat} (hm : m ≤ xs.length)
    (h : Scan.endsInComment 0 (xs.drop m) = false) (ys : List UInt8) :
    (behind (xs ++ '\n'.toUInt8 :: ys) m).items =
      (behind xs m).items ++ (behind (xs ++ '\n'.toUInt8 :: ys) (xs.length + 1)).items := by
  have hposition : Position.ofOffset (xs ++ '\n'.toUInt8 :: ys) m = Position.ofOffset xs m := by
    rw [Position.ofOffset, Position.ofOffset, List.take_append_of_le_length hm]
  have hend : ((Position.ofOffset xs m).advance (xs.drop m)).next '\n'.toUInt8 =
      Position.ofOffset (xs ++ '\n'.toUInt8 :: ys) (xs.length + 1) := by
    rw [Position.ofOffset, Position.ofOffset, ← Position.advance_append, List.take_append_drop,
      List.take_length_add_append, Position.advance_append]
    rfl
  simp only [behind, scan]
  rw [List.drop_append_of_le_length hm, Scan.tokensFrom_newline (Nat.zero_le _) h, hposition, hend,
    List.drop_length_add_append]
  rfl

end Tokens

namespace Parser

/-- A block that is no action is read alike in front of more tokens, whatever
its source is. -/
theorem block_append {source : List UInt8} {t : Token} {ts later : Tokens} {tree : Tree}
    (h : block source t ts = .ok (tree, later)) (hactions : tree.actions = [])
    (source' : List UInt8) (more : List Token) (stop' : Position) :
    block source' t ⟨ts.items ++ more, stop'⟩ = .ok (tree, ⟨later.items ++ more, stop'⟩) := by
  by_cases hkind : t.kind = .keyword .action
  · obtain ⟨a, used, brace, rest, c, rfl, -⟩ := action_uses hkind h
    cases hactions
  · obtain ⟨-, used, hsplit, -, hagain⟩ := block_uses hkind h
    rw [hsplit, List.append_assoc]
    exact hagain source' _ stop'

theorem Reads.append_tokens {source : List UInt8} {ts last : Tokens} {tree : Tree}
    (h : Reads source ts tree last) (hactions : tree.actions = []) (source' : List UInt8)
    (more : List Token) (stop' : Position) :
    Reads source' ⟨ts.items ++ more, stop'⟩ tree ⟨last.items ++ more, stop'⟩ := by
  induction h with
  | done ts => exact .done _
  | step hitems hblock _ ih =>
      rw [Tree.actions_append, List.append_eq_nil_iff] at hactions
      refine .step ?_ (block_append hblock hactions.1 source' more stop') (ih hactions.2)
      rw [hitems, List.cons_append]

/-! ## Two sources -/

/-- What stands behind the last body of a source, which is the whole source if
it has no action. -/
inductive BehindBodies (source : List UInt8) (tree : Tree) : List UInt8 → Prop
  | all (hactions : tree.actions = []) : BehindBodies source tree source
  | body {before : Tree} {a : Action} {o c : Nat} (hbody : BodyAt source before a o c)
      (hactions : tree.actions = before.actions ++ [a]) :
      BehindBodies source tree (source.drop (c + 1))

/-- Whether what stands behind the last body of a source ends inside a block
comment that lacks its end. -/
def LeavesCommentOpen (source : List UInt8) (tree : Tree) : Prop :=
  ∃ tail, BehindBodies source tree tail ∧ Scan.endsInComment 0 tail = true

theorem exists_behindBodies {source : List UInt8} {tree : Tree}
    (h : Tree.ofBytes source = .ok tree) : ∃ tail, BehindBodies source tree tail := by
  rcases List.eq_nil_or_concat tree.actions with hnil | ⟨as, a, hactions⟩
  · exact ⟨source, .all hnil⟩
  · rw [List.concat_eq_append] at hactions
    obtain ⟨before, o, c, hbefore, hbody⟩ := exists_bodyAt h hactions
    exact ⟨_, .body hbody (by rw [hbefore, hactions])⟩

/-- Where no action is left, a source in front of a newline is read as by
itself, and reading comes to what stands behind the newline. -/
theorem Reads.newline {xs : List UInt8} {m : Nat} {tree : Tree} {last : Tokens}
    (h : Reads xs (Tokens.behind xs m) tree last) (hlast : last.items = [])
    (hactions : tree.actions = []) (hm : m ≤ xs.length)
    (hclosed : Scan.endsInComment 0 (xs.drop m) = false) (ys : List UInt8) :
    Reads (xs ++ '\n'.toUInt8 :: ys) (Tokens.behind (xs ++ '\n'.toUInt8 :: ys) m) tree
      (Tokens.behind (xs ++ '\n'.toUInt8 :: ys) (xs.length + 1)) := by
  have happend := h.append_tokens hactions (xs ++ '\n'.toUInt8 :: ys)
    (Tokens.behind (xs ++ '\n'.toUInt8 :: ys) (xs.length + 1)).items
    (Tokens.behind (xs ++ '\n'.toUInt8 :: ys) m).stop
  have hend : (⟨(Tokens.behind (xs ++ '\n'.toUInt8 :: ys) (xs.length + 1)).items,
      (Tokens.behind (xs ++ '\n'.toUInt8 :: ys) m).stop⟩ : Tokens) =
        Tokens.behind (xs ++ '\n'.toUInt8 :: ys) (xs.length + 1) := by
    rw [Tokens.stop_behind_eq _ m (xs.length + 1)]
  rw [← Tokens.behind_newline hm hclosed, hlast, List.nil_append, hend] at happend
  exact happend

/-- A whole source in front of a newline is read as by itself. Up to its last
body it is not seen to go on, and behind that there is no action. -/
theorem reads_newline {xs tail : List UInt8} {tree : Tree} (htree : Tree.ofBytes xs = .ok tree)
    (htail : BehindBodies xs tree tail) (hclosed : Scan.endsInComment 0 tail = false)
    (ys : List UInt8) :
    Reads (xs ++ '\n'.toUInt8 :: ys) (Tokens.ofSource (xs ++ '\n'.toUInt8 :: ys)) tree
      (Tokens.behind (xs ++ '\n'.toUInt8 :: ys) (xs.length + 1)) := by
  obtain ⟨last, hreads, hlast⟩ := ofBytes_eq_ok_iff.mp htree
  cases htail with
  | all hactions => exact hreads.newline hlast hactions (Nat.zero_le _) hclosed ys
  | body hbody hactions =>
      rename_i before a o c
      obtain ⟨hopen, hclose⟩ := closeOffset_lt hbody.body
      simp only at hopen hclose
      obtain ⟨more, rfl, hmore⟩ := hbody.reads.rest hreads hlast
      have hnone : more.actions = [] := by
        simpa [Tree.actions_append, ofAction] using hactions
      -- Up to the closing brace of the last body both sources are the same.
      have hagree : ∀ n, n ≤ xs.length → xs.take n = (xs ++ '\n'.toUInt8 :: ys).take n :=
        fun n hn => (List.take_append_of_le_length hn).symm
      have hbody' : BodyAt (xs ++ '\n'.toUInt8 :: ys) before a o c :=
        hbody.of_take_eq (hagree _ (by omega))
          (extract_local (hagree _ hclose) hbody.body (Nat.lt_succ_self c))
      exact hbody'.reads.append (hmore.newline hlast hnone hclose hclosed ys)

section

variable {xs ys tail : List UInt8} {tree₁ : Tree} (h₁ : Tree.ofBytes xs = .ok tree₁)
  (htail : BehindBodies xs tree₁ tail) (hclosed : Scan.endsInComment 0 tail = false)

theorem drop_newline (xs ys : List UInt8) :
    (xs ++ '\n'.toUInt8 :: ys).drop (xs.length + 1) = ys := by
  rw [List.drop_length_add_append]
  rfl

theorem count_take_newline (xs ys : List UInt8) :
    ((xs ++ '\n'.toUInt8 :: ys).take (xs.length + 1)).count '\n'.toUInt8 =
      xs.count '\n'.toUInt8 + 1 := by
  rw [List.take_length_add_append, List.count_append]
  rfl

include h₁ htail hclosed

/-- What two sources declare is declared by both with a newline between them,
the second one further down. -/
theorem ofBytes_newline {tree₂ : Tree} (h₂ : Tree.ofBytes ys = .ok tree₂) :
    Tree.ofBytes (xs ++ '\n'.toUInt8 :: ys) =
      .ok (tree₁ ++ tree₂.shift (xs.count '\n'.toUInt8 + 1)) := by
  have hreads := reads_newline h₁ htail hclosed ys
  rw [← drop_newline xs ys] at h₂
  obtain ⟨last, hlater, hlast⟩ := exists_reads_of_drop (by simp) h₂
  rw [count_take_newline] at hlater
  exact ofBytes_eq_ok_iff.mpr ⟨last, hreads.append hlater, hlast⟩

/-- The error of the second source is that of both, further down; the column
stays, for the second one starts on a new line. -/
theorem ofBytes_newline_error {e : ParseError} (h₂ : Tree.ofBytes ys = .error (.parse e)) :
    Tree.ofBytes (xs ++ '\n'.toUInt8 :: ys) =
      .error (.parse { e with line := e.line + (xs.count '\n'.toUInt8 + 1) }) := by
  have hreads := reads_newline h₁ htail hclosed ys
  -- Both texts start a line, so columns stay.
  have hcolumn : (Position.ofOffset (xs ++ '\n'.toUInt8 :: ys) (xs.length + 1)).column =
      (Position.ofOffset ys 0).column := by
    rw [Position.ofOffset, List.take_length_add_append, Position.advance_append]
    rfl
  have hline : movedLine ys 0 (xs ++ '\n'.toUInt8 :: ys) (xs.length + 1) e.line =
      e.line + (xs.count '\n'.toUInt8 + 1) := by
    simp only [movedLine, Position.line_ofOffset, count_take_newline, List.take_zero,
      List.count_nil]
    omega
  have hfails : Fails ys (Tokens.behind ys 0) (.parse e) := ofBytes_eq_error_iff.mp h₂
  have hdrop : ys.drop 0 = (xs ++ '\n'.toUInt8 :: ys).drop (xs.length + 1) :=
    (drop_newline xs ys).symm
  have herror : e.rebase (Position.ofOffset ys 0)
      (Position.ofOffset (xs ++ '\n'.toUInt8 :: ys) (xs.length + 1)) =
        { e with line := e.line + (xs.count '\n'.toUInt8 + 1) } := by
    rw [← hline]
    simp only [ParseError.rebase, Position.rebase, hcolumn, Nat.add_sub_cancel, ite_self, movedLine]
  have hmoved := Fails.moved hdrop (Nat.zero_le _) (by simp) (j := 0) hfails
  rw [herror] at hmoved
  obtain ⟨before, mid, t, items, hbefore, h⟩ := hmoved
  exact ofBytes_eq_error_iff.mpr ⟨_, mid, t, items, hreads.append hbefore, h⟩

end

/-- Two sources with a newline between them. If the first declares `tree₁` and
leaves no comment open, what the second declares comes behind `tree₁`, further
down; and if the second has a token that cannot be read, that token is the error
of both, further down. -/
theorem ofSource_newline {s₁ : String} {tree₁ : Tree} (h₁ : Tree.ofSource s₁ = .ok tree₁)
    (hclosed : ¬ LeavesCommentOpen (Text.bytes s₁) tree₁) (s₂ : String) :
    (∀ tree₂, Tree.ofSource s₂ = .ok tree₂ →
      Tree.ofSource (s₁ ++ "\n" ++ s₂) = .ok (tree₁ ++ tree₂.shift (Text.newlines s₁ + 1))) ∧
    ∀ e, Tree.ofSource s₂ = .error (.parse e) →
      Tree.ofSource (s₁ ++ "\n" ++ s₂) =
        .error (.parse { e with line := e.line + (Text.newlines s₁ + 1) }) := by
  obtain ⟨tail, htail⟩ := exists_behindBodies h₁
  have hend : Scan.endsInComment 0 tail = false :=
    Bool.eq_false_iff.mpr fun hopen => hclosed ⟨tail, htail, hopen⟩
  have hbytes : Text.bytes (s₁ ++ "\n" ++ s₂) =
      Text.bytes s₁ ++ '\n'.toUInt8 :: Text.bytes s₂ := by
    rw [Text.bytes_append, Text.bytes_append, List.append_assoc]
    rfl
  simp only [Tree.ofSource, hbytes]
  exact ⟨fun _ h₂ => ofBytes_newline h₁ htail hend h₂,
    fun _ h₂ => ofBytes_newline_error h₁ htail hend h₂⟩

/-- A body that holds a quote and the start of a comment reaches nothing behind
it, as it would if it were tokens. -/
theorem ofSource_newline_quoted_comment :
    Tree.ofSource "do f() \x7b'\"/*'\x7d // x\nimport \"a\"" =
        .ok { actions := [⟨"f", [], "'\"/*'", 1⟩], imports := [⟨"a", 2⟩] } ∧
      Tree.ofSource "do f() \x7b'\"/*'\x7d // x\n\nimport" =
        .error (.parse ⟨.importPath, .endOfInput, 3, 7⟩) := by
  have h₁ : Tree.ofSource r#"do f() {'"/*'} // x"# =
      .ok { actions := [⟨"f", [], "'\"/*'", 1⟩] } := rfl
  have hclosed : ¬ LeavesCommentOpen (Text.bytes r#"do f() {'"/*'} // x"#)
      { actions := [⟨"f", [], "'\"/*'", 1⟩] } := by
    rintro ⟨tail, htail, hopen⟩
    cases htail with
    | all hactions => cases hactions
    | body hbody _ =>
        rename_i before a o c
        -- There is one closing brace, and what follows it is a comment with an end.
        have hbrace : ∀ c, c < (Text.bytes r#"do f() {'"/*'} // x"#).length →
            ((Text.bytes r#"do f() {'"/*'} // x"#).drop c).head? = some '}'.toUInt8 →
              Scan.endsInComment 0 ((Text.bytes r#"do f() {'"/*'} // x"#).drop (c + 1)) =
                false := by
          decide
        obtain ⟨-, hlt⟩ := closeOffset_lt hbody.body
        obtain ⟨start, inside, rest, hsource, rfl, rfl, -⟩ := hbody.exists_split
        rw [hbrace _ hlt] at hopen
        · cases hopen
        · rw [hsource, ← List.drop_drop, List.drop_length_add_append]
          simp
  have h := ofSource_newline h₁ hclosed
  exact ⟨(h "import \"a\"").1 { imports := [⟨"a", 1⟩] } rfl,
    (h "\nimport").2 ⟨.importPath, .endOfInput, 2, 7⟩ rfl⟩

end Parser

end BlockLang
