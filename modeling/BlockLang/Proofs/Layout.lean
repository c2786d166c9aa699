import BlockLang.Proofs.Encoding
import BlockLang.Proofs.Filler

/-! # Layout

Filler in front of a token that the parser comes to changes nothing but positions. The tokens before
it stay where they are and the others move, so no single change of lines describes what happens to
the block around it. That block is compared without positions; the blocks before it are read as they
were, and those behind it as from another place.
-/

namespace BlockLang

/-! ## Reading without positions -/

def Token.bare (t : Token) : Token := { t with position := ⟨0, 0, 0⟩ }

def ParseError.bare (e : ParseError) : ParseError := { e with line := 0, column := 0 }

/-- A tree without its lines: what a source declares, wherever it does. -/
def Tree.bare (t : Tree) : Tree := t.mapLines fun _ => 0

theorem Tree.bare_append (t u : Tree) : (t ++ u).bare = t.bare ++ u.bare :=
  mapLines_append _ t u

theorem Tree.bare_mapLines (lines : Nat → Nat) (t : Tree) : (t.mapLines lines).bare = t.bare := by
  simp only [bare, mapLines, List.map_map]
  rfl

namespace Parser

/-- Leaving positions out is a change of tokens that readers do not see, with an
end of the source that is nowhere either. -/
theorem moves_bare (stop : Position) :
    Moves Token.bare (fun _ => 0) ParseError.bare stop ⟨0, 0, 0⟩ where
  kind := fun _ => rfl
  text := fun _ => rfl
  line := fun _ => rfl
  unexpected := by
    intro expected ts
    cases ts <;> rfl

section

variable {source source' : List UInt8} {t : Token} {items items' : List Token}
  {stop stop' : Position}

/-- Only actions have bodies that can lack their ends, so other blocks fail at
some token or not at all. -/
theorem block_ne_error (hkind : t.kind ≠ .keyword .action) {ts : Tokens} {e : BlockError} :
    block source t ts ≠ .error (.block e) := by
  have hlift : ∀ {α : Type} {toTree : α → Tree} {outcome : Except ParseError (α × List Token)},
      lift ts toTree outcome ≠ .error (.block e) := by
    intro α toTree outcome
    rcases outcome with e' | ⟨a, rest⟩ <;> simp [lift]
  simp only [block]
  split
  · exact hlift
  next haction => exact absurd haction hkind
  · exact hlift
  · exact hlift
  · exact hlift
  · simp
  · simp

/-- A block that is no action is read from tokens without positions as from
tokens with them. -/
theorem block_bare (hkind : t.kind ≠ .keyword .action) (source : List UInt8) (items : List Token)
    (stop : Position) :
    (∃ tree n, n ≤ items.length ∧
      block source t ⟨items, stop⟩ = .ok (tree, ⟨items.drop n, stop⟩) ∧
        block [] t.bare ⟨items.map Token.bare, ⟨0, 0, 0⟩⟩ =
          .ok (tree.bare, ⟨(items.map Token.bare).drop n, ⟨0, 0, 0⟩⟩)) ∨
    ∃ e, block source t ⟨items, stop⟩ = .error (.parse e) ∧
      block [] t.bare ⟨items.map Token.bare, ⟨0, 0, 0⟩⟩ = .error (.parse e.bare) := by
  have hbare := moves_bare stop
  rcases hblock : block source t ⟨items, stop⟩ with (e | e) | ⟨tree, later⟩
  · exact .inr ⟨e, rfl, block_map_error hbare hblock []⟩
  · exact absurd hblock (block_ne_error hkind)
  · obtain ⟨-, used, rfl, rfl, -⟩ := block_uses hkind hblock
    refine .inl ⟨tree, used.length, by simp, by rw [List.drop_left], ?_⟩
    rw [block_map hbare hkind hblock [], List.map_append, List.drop_left' (List.length_map _)]
    rfl

/-- A block that is no action is read alike from tokens that differ in positions
only. -/
theorem block_alike (hkind : t.kind ≠ .keyword .action)
    (hitems : items.map Token.bare = items'.map Token.bare) (source source' : List UInt8)
    (stop stop' : Position) :
    (∃ tree tree' n, tree.bare = tree'.bare ∧ n ≤ items.length ∧
      block source t ⟨items, stop⟩ = .ok (tree, ⟨items.drop n, stop⟩) ∧
        block source' t ⟨items', stop'⟩ = .ok (tree', ⟨items'.drop n, stop'⟩)) ∨
    ∃ e e', e.bare = e'.bare ∧ block source t ⟨items, stop⟩ = .error (.parse e) ∧
      block source' t ⟨items', stop'⟩ = .error (.parse e') := by
  have hlength : items.length = items'.length := by simpa using congrArg List.length hitems
  have hfirst := block_bare hkind source items stop
  have hsecond := block_bare hkind source' items' stop'
  rw [hitems] at hfirst
  rcases hfirst with ⟨tree, n, hn, hblock, hbare⟩ | ⟨e, hblock, hbare⟩
  · rcases hsecond with ⟨tree', n', hn', hblock', hbare'⟩ | ⟨e', hblock', hbare'⟩
    · rw [hbare] at hbare'
      obtain ⟨htree, hrest⟩ := Prod.mk.inj (Except.ok.inj hbare')
      -- The same tokens are left, so the same number of them is used up.
      have hleft := congrArg List.length (Tokens.mk.inj hrest).1
      simp only [List.length_drop, List.length_map] at hleft
      obtain rfl : n = n' := by omega
      exact .inl ⟨tree, tree', n, htree, hn, hblock, hblock'⟩
    · rw [hbare] at hbare'
      cases hbare'
  · rcases hsecond with ⟨tree', n', hn', hblock', hbare'⟩ | ⟨e', hblock', hbare'⟩
    · rw [hbare] at hbare'
      cases hbare'
    · rw [hbare] at hbare'
      exact .inr ⟨e, e', SyntaxError.parse.inj (Except.error.inj hbare'), hblock, hblock'⟩

/-- Name and parameters of an action are read alike from tokens that differ in
positions only. -/
theorem signature_alike (hitems : items.map Token.bare = items'.map Token.bare)
    (stop stop' : Position) :
    (∃ a n, n ≤ items.length ∧ signature stop items = .ok (a, items.drop n) ∧
      signature stop' items' = .ok (a, items'.drop n)) ∨
    ∃ e e', e.bare = e'.bare ∧ signature stop items = .error e ∧
      signature stop' items' = .error e' := by
  have hlength : items.length = items'.length := by simpa using congrArg List.length hitems
  -- Read without its positions, each signature is the same reader on the same bare tokens.
  have hmove : Outcome.move Token.bare ParseError.bare id (signature stop items) =
      Outcome.move Token.bare ParseError.bare id (signature stop' items') := by
    rw [← commutes_signature (moves_bare stop) items, hitems]
    exact commutes_signature (moves_bare stop') items'
  have hdrop : ∀ {stop : Position} {items rest : List Token} {a : String × List String},
      signature stop items = .ok (a, rest) → ∃ n, n ≤ items.length ∧ rest = items.drop n := by
    intro stop items rest a h
    obtain ⟨used, rfl, -⟩ := signature_taken h
    exact ⟨used.length, by simp, by rw [List.drop_left]⟩
  rcases hfirst : signature stop items with e | ⟨a, rest⟩
  · rcases hsecond : signature stop' items' with e' | ⟨a', rest'⟩
    · rw [hfirst, hsecond] at hmove
      exact .inr ⟨e, e', Except.error.inj hmove, rfl, rfl⟩
    · rw [hfirst, hsecond] at hmove
      cases hmove
  · rcases hsecond : signature stop' items' with e' | ⟨a', rest'⟩
    · rw [hfirst, hsecond] at hmove
      cases hmove
    · rw [hfirst, hsecond] at hmove
      obtain ⟨ha, hrest⟩ := Prod.mk.inj (Except.ok.inj hmove)
      obtain ⟨n, hn, rfl⟩ := hdrop hfirst
      obtain ⟨n', hn', rfl⟩ := hdrop hsecond
      have hleft := congrArg List.length hrest
      simp only [List.length_drop, List.length_map] at hleft
      obtain rfl : n = n' := by omega
      obtain rfl : a = a' := ha
      exact .inl ⟨a, n, hn, rfl, rfl⟩

theorem block_of_header_error {e : ParseError} (hkind : t.kind = .keyword .action)
    (h : signature stop items = .error e ∨
      ∃ a rest, signature stop items = .ok (a, rest) ∧ bodyBrace stop rest = .error e) :
    block source t ⟨items, stop⟩ = .error (.parse e) := by
  simp only [block, hkind]
  exact Except.map_eq_error_iff.mpr (action_eq_error_iff.mpr h)

/-- What becomes of an action whose body opens: it is what the brace
encloses. -/
theorem block_of_brace {a : String × List String} {brace : Token} {rest : List Token} {n : Nat}
    (hkind : t.kind = .keyword .action) (hsignature : signature stop items = .ok (a, brace :: rest))
    (hopen : brace.kind = .mark .braceOpen)
    (hlocate : Block.locate source brace.position.line = .ok n) :
    block source t ⟨items, stop⟩ =
      match Block.extract source brace.position.offset with
      | .ok body => .ok (ofAction ⟨a.1, a.2, body.text, t.position.line⟩,
          skipBody source body ⟨brace :: rest, stop⟩)
      | .error e => .error (.block e) := by
  have hbrace : bodyBrace stop (brace :: rest) = .ok brace.position :=
    bodyBrace_eq_ok_iff.mpr ⟨brace, rest, rfl, hopen, rfl⟩
  simp only [block, hkind, action, hsignature, Except.mapError, bind, Except.bind, hbrace, hlocate]
  cases Block.extract source brace.position.offset <;> rfl

end

/-! ## What reading comes to -/

/-- Whether reading a source comes to a token at an offset: it is the first of a
block behind others, or one that this block reaches. -/
def ComesTo (source : List UInt8) (offset : Nat) : Prop :=
  ∃ before mid t items u, Reads source (Tokens.ofSource source) before mid ∧
    mid.items = t :: items ∧ u ∈ t :: items.take (reach source t ⟨items, mid.stop⟩) ∧
      u.position.offset = offset

/-- Whether two sources fail for the same reason, wherever they do. -/
inductive SameFailure : SyntaxError → SyntaxError → Prop
  | parse {e e' : ParseError} (hexpected : e.expected = e'.expected) (hfound : e.found = e'.found) :
      SameFailure (.parse e) (.parse e')
  | block (e e' : BlockError) : SameFailure (.block e) (.block e')

/-- Whether two sources declare the same, wherever they do, or fail for the same
reason. -/
inductive SameMeaning : Except SyntaxError Tree → Except SyntaxError Tree → Prop
  | trees {tree tree' : Tree} (h : tree.bare = tree'.bare) : SameMeaning (.ok tree) (.ok tree')
  | errors {e e' : SyntaxError} (h : SameFailure e e') : SameMeaning (.error e) (.error e')

theorem SameFailure.of_bare {e e' : ParseError} (h : e.bare = e'.bare) :
    SameFailure (.parse e) (.parse e') :=
  .parse (congrArg ParseError.expected h :) (congrArg ParseError.found h :)

/-- Whether a block is read alike in two sources up to the same bytes, which
stand behind `p` and `p'`, or fails for the same reason. -/
inductive StepAlike (source source' : List UInt8) (p p' : Nat) :
    Except SyntaxError (Tree × Tokens) → Except SyntaxError (Tree × Tokens) → Prop
  | reads {tree tree' : Tree} (j : Nat) (h : tree.bare = tree'.bare) :
      StepAlike source source' p p' (.ok (tree, Tokens.behind source (p + j)))
        (.ok (tree', Tokens.behind source' (p' + j)))
  | fails {e e' : SyntaxError} (h : SameFailure e e') :
      StepAlike source source' p p' (.error e) (.error e')

section

variable {source source' : List UInt8} {p p' : Nat} (hdrop : source.drop p = source'.drop p')
  (hp : p ≤ source.length) (hp' : p' ≤ source'.length)

include hdrop hp hp'

/-! ## From the same bytes on -/

theorem ofBytes_moved_ok {j : Nat} {before before' tree : Tree}
    (hbefore : before.bare = before'.bare)
    (h : Reads source (Tokens.ofSource source) before (Tokens.behind source (p + j)))
    (h' : Reads source' (Tokens.ofSource source') before' (Tokens.behind source' (p' + j)))
    (htree : Tree.ofBytes source = .ok tree) :
    ∃ tree', Tree.ofBytes source' = .ok tree' ∧ tree.bare = tree'.bare := by
  obtain ⟨last, hreads, hlast⟩ := ofBytes_eq_ok_iff.mp htree
  obtain ⟨more, rfl, hmore⟩ := h.rest hreads hlast
  obtain ⟨n, rfl, hmoved⟩ := Reads.moved_to hdrop hp hp' hmore
  have hlast' : (Tokens.behind source' (p' + n)).items = [] := by
    rw [Tokens.behind_moved hdrop, hlast]
    rfl
  refine ⟨_, ofBytes_eq_ok_iff.mpr ⟨_, h'.append hmoved, hlast'⟩, ?_⟩
  rw [Tree.bare_append, Tree.bare_append, Tree.bare_mapLines, hbefore]

theorem ofBytes_moved_error {j : Nat} {before before' : Tree} {e : ParseError}
    (h : Reads source (Tokens.ofSource source) before (Tokens.behind source (p + j)))
    (h' : Reads source' (Tokens.ofSource source') before' (Tokens.behind source' (p' + j)))
    (herror : Tree.ofBytes source = .error (.parse e)) :
    ∃ e', Tree.ofBytes source' = .error (.parse e') ∧ e.bare = e'.bare := by
  have hfails := (ofBytes_eq_error_iff.mp herror).rest h
  obtain ⟨more, stuck, t, items, hmore, hstuck⟩ := Fails.moved hdrop hp hp' hfails
  exact ⟨_, ofBytes_eq_error_iff.mpr ⟨_, stuck, t, items, h'.append hmore, hstuck⟩, rfl⟩

/-- Two sources that are read alike up to the same bytes have the same meaning,
as these bytes are read alike or fail alike. -/
theorem sameMeaning_of_reads {j : Nat} {before before' : Tree}
    (hbefore : before.bare = before'.bare)
    (h : Reads source (Tokens.ofSource source) before (Tokens.behind source (p + j)))
    (h' : Reads source' (Tokens.ofSource source') before' (Tokens.behind source' (p' + j))) :
    SameMeaning (Tree.ofBytes source) (Tree.ofBytes source') := by
  rcases hfirst : Tree.ofBytes source with (e | e) | tree
  · obtain ⟨e', hsecond, hbare⟩ := ofBytes_moved_error hdrop hp hp' h h' hfirst
    rw [hsecond]
    exact .errors (.of_bare hbare)
  · -- A body that lacks its end lacks it in both sources, for they could be exchanged.
    rcases hsecond : Tree.ofBytes source' with (e' | e') | tree'
    · obtain ⟨e'', hthird, -⟩ := ofBytes_moved_error hdrop.symm hp' hp h' h hsecond
      rw [hfirst] at hthird
      cases hthird
    · exact .errors (.block e e')
    · obtain ⟨tree, hthird, -⟩ := ofBytes_moved_ok hdrop.symm hp' hp hbefore.symm h' h hsecond
      rw [hfirst] at hthird
      cases hthird
  · obtain ⟨tree', hsecond, hbare⟩ := ofBytes_moved_ok hdrop hp hp' hbefore h h' hfirst
    rw [hsecond]
    exact .trees hbare

/-- Two sources in which a block is read alike, behind blocks that are, have the
same meaning. -/
theorem sameMeaning_of_step {m : Nat} {before : Tree} {t : Token} {items items' : List Token}
    (h : Reads source (Tokens.ofSource source) before (Tokens.behind source m))
    (h' : Reads source' (Tokens.ofSource source') before (Tokens.behind source' m))
    (hitems : (Tokens.behind source m).items = t :: items)
    (hitems' : (Tokens.behind source' m).items = t :: items')
    (hstep : StepAlike source source' p p' (block source t ⟨items, (Tokens.behind source m).stop⟩)
      (block source' t ⟨items', (Tokens.behind source' m).stop⟩)) :
    SameMeaning (Tree.ofBytes source) (Tree.ofBytes source') := by
  generalize hblock : block source t ⟨items, (Tokens.behind source m).stop⟩ = outcome at hstep
  generalize hblock' : block source' t ⟨items', (Tokens.behind source' m).stop⟩ = outcome' at hstep
  cases hstep with
  | reads j htree =>
      refine sameMeaning_of_reads hdrop hp hp' ?_ (h.append (.step hitems hblock (.done _)))
        (h'.append (.step hitems' hblock' (.done _)))
      rw [Tree.append_empty, Tree.append_empty, Tree.bare_append, Tree.bare_append, htree]
  | fails he =>
      rw [ofBytes_eq_error_iff.mpr ⟨before, _, t, items, h, hitems, hblock⟩,
        ofBytes_eq_error_iff.mpr ⟨before, _, t, items', h', hitems', hblock'⟩]
      exact .errors he

/-! ## The block around an insertion -/

section

variable {m : Nat} {t u : Token} {pre post : List Token}
  (hitems : (Tokens.behind source m).items = t :: (pre ++ u :: post))
  (hitems' : (Tokens.behind source' m).items =
    t :: (pre ++ (u :: post).map (Token.moved source p source' p')))
  (hu : u.position.offset = p)

include hitems hitems' hu

omit hp hp' hitems' in
/-- What is left behind the insertion stands behind some offset that moves
along, so that it is the same bytes in both sources. -/
theorem exists_behind_insert {n : Nat} (hn : pre.length < n) :
    ∃ j, (⟨(pre ++ u :: post).drop n, (Tokens.behind source m).stop⟩ : Tokens) =
        Tokens.behind source (p + j) ∧
      (⟨(pre ++ (u :: post).map (Token.moved source p source' p')).drop n,
        (Tokens.behind source' m).stop⟩ : Tokens) = Tokens.behind source' (p' + j) := by
  obtain ⟨i, rfl⟩ : ∃ i, n = pre.length + (i + 1) := ⟨n - pre.length - 1, by omega⟩
  have hsplit : (Tokens.behind source m).items = (t :: pre) ++ u :: post := hitems
  obtain ⟨-, -, -, hbehind⟩ := Tokens.behind_of_mem hsplit
  have hpost : (Tokens.behind source p).items = u :: post.take i ++ post.drop i := by
    rw [← hu, hbehind, List.cons_append, List.take_append_drop]
  obtain ⟨n, hlt, -, hrest⟩ := Tokens.exists_behind hpost
  obtain ⟨j, rfl⟩ : ∃ j, n = p + j := ⟨n - p, by omega⟩
  refine ⟨j, ?_, ?_⟩
  · rw [List.drop_length_add_append, List.drop_succ_cons, Tokens.stop_behind_eq source m p]
    exact hrest
  · have hitems : post.drop i = (Tokens.behind source (p + j)).items :=
      congrArg Tokens.items hrest
    rw [List.drop_length_add_append, List.map_cons, List.drop_succ_cons, ← List.map_drop, hitems,
      ← Tokens.behind_moved hdrop, Tokens.stop_behind_eq source' m (p' + j)]

omit hdrop hp hp' hitems hitems' hu in
theorem map_bare_insert (source : List UInt8) (p : Nat) (source' : List UInt8) (p' : Nat)
    (pre rest : List Token) : (pre ++ rest).map Token.bare =
      (pre ++ rest.map (Token.moved source p source' p')).map Token.bare := by
  rw [List.map_append, List.map_append, List.map_map]
  rfl

/-- An action whose body opens behind the insertion has the same body in both
sources, or in both none. -/
theorem brace_insert {a : String × List String} {brace : Token} {rest : List Token} {i : Nat}
    (hkind : t.kind = .keyword .action) (hrest : (u :: post).drop i = brace :: rest)
    (hopen : brace.kind = .mark .braceOpen)
    (hsignature : signature (Tokens.behind source m).stop (pre ++ u :: post) =
      .ok (a, brace :: rest))
    (hsignature' : signature (Tokens.behind source' m).stop
      (pre ++ (u :: post).map (Token.moved source p source' p')) =
        .ok (a, (brace :: rest).map (Token.moved source p source' p'))) :
    StepAlike source source' p p'
      (block source t ⟨pre ++ u :: post, (Tokens.behind source m).stop⟩)
      (block source' t ⟨pre ++ (u :: post).map (Token.moved source p source' p'),
        (Tokens.behind source' m).stop⟩) := by
  have hall : u :: post = (u :: post).take i ++ brace :: rest := by
    rw [← hrest, List.take_append_drop]
  have hsplit : (Tokens.behind source m).items =
      (t :: pre ++ (u :: post).take i) ++ brace :: rest := by
    rw [hitems, List.append_assoc, ← hall]
    rfl
  have hsplit' : (Tokens.behind source' m).items =
      (t :: pre ++ ((u :: post).take i).map (Token.moved source p source' p')) ++
        Token.moved source p source' p' brace :: rest.map (Token.moved source p source' p') := by
    rw [hitems', List.append_assoc, ← List.map_cons, ← List.map_append, ← hall]
    rfl
  -- The brace is the token at the insertion or a later one, so its offset moves along.
  have hfirst : (Tokens.behind source m).items = (t :: pre) ++ u :: post := hitems
  obtain ⟨-, -, -, hbehind⟩ := Tokens.behind_of_mem hfirst
  rw [hu, hall] at hbehind
  obtain ⟨hle, -⟩ := Tokens.behind_of_mem hbehind
  obtain ⟨k, hk⟩ : ∃ k, brace.position.offset = p + k := ⟨brace.position.offset - p, by omega⟩
  have hk' : (Token.moved source p source' p' brace).position.offset = p' + k := by
    rw [offset_moved hp hp', hk]
    omega
  obtain ⟨line, hlocate⟩ := Tokens.locate_of_brace hsplit hopen
  obtain ⟨line', hlocate'⟩ := Tokens.locate_of_brace hsplit' hopen
  rw [block_of_brace hkind hsignature hopen hlocate,
    block_of_brace hkind hsignature' hopen hlocate', hk, hk']
  rcases hextract : Block.extract source (p + k) with e | ⟨body, c⟩
  · obtain ⟨e', hextract'⟩ := extract_moved_error hdrop hextract
    rw [hextract']
    exact .fails (.block e e')
  · obtain ⟨j, hc, c', hc', hextract'⟩ := extract_moved hdrop hextract
    have hlater : skipBody source ⟨body, c⟩ ⟨brace :: rest, (Tokens.behind source m).stop⟩ =
        Tokens.behind source (p + j) := by
      rw [← hc]
      exact skipBody_eq_behind hsplit hextract
    have hlater' : skipBody source' ⟨body, c'⟩
        ⟨(brace :: rest).map (Token.moved source p source' p'), (Tokens.behind source' m).stop⟩ =
          Tokens.behind source' (p' + j) := by
      rw [← hc']
      exact skipBody_eq_behind hsplit' hextract'
    rw [hextract']
    simp only
    rw [hlater, ← List.map_cons, hlater']
    exact .reads j rfl

omit hp hp' hitems' in
/-- A block other than an action, with the insertion in front of a token that it
uses up. -/
theorem block_insert (hkind : t.kind ≠ .keyword .action)
    (hreach : pre.length < reach source t ⟨pre ++ u :: post, (Tokens.behind source m).stop⟩) :
    StepAlike source source' p p'
      (block source t ⟨pre ++ u :: post, (Tokens.behind source m).stop⟩)
      (block source' t ⟨pre ++ (u :: post).map (Token.moved source p source' p'),
        (Tokens.behind source' m).stop⟩) := by
  rcases block_alike hkind (map_bare_insert source p source' p' pre (u :: post)) source source'
      (Tokens.behind source m).stop (Tokens.behind source' m).stop with
    ⟨tree, tree', n, htree, hn, hblock, hblock'⟩ | ⟨e, e', he, hblock, hblock'⟩
  · rw [hblock, hblock']
    simp only [reach, if_neg hkind, hblock, List.length_drop] at hreach
    obtain ⟨j, hlater, hlater'⟩ :=
      exists_behind_insert hdrop hitems hu (by omega : pre.length < n)
    rw [hlater, hlater']
    exact .reads j htree
  · rw [hblock, hblock']
    exact .fails (.of_bare he)

/-- An action, with the insertion in its header or in front of the brace that
opens its body. -/
theorem action_insert (hkind : t.kind = .keyword .action)
    (hreach : pre.length < reach source t ⟨pre ++ u :: post, (Tokens.behind source m).stop⟩) :
    StepAlike source source' p p'
      (block source t ⟨pre ++ u :: post, (Tokens.behind source m).stop⟩)
      (block source' t ⟨pre ++ (u :: post).map (Token.moved source p source' p'),
        (Tokens.behind source' m).stop⟩) := by
  rcases signature_alike (map_bare_insert source p source' p' pre (u :: post))
      (Tokens.behind source m).stop (Tokens.behind source' m).stop with
    ⟨a, n, hn, hsignature, hsignature'⟩ | ⟨e, e', he, hsignature, hsignature'⟩
  · simp only [reach, if_pos hkind, hsignature, List.length_drop] at hreach
    -- All that the header leaves stands behind the insertion.
    obtain ⟨i, rfl⟩ : ∃ i, n = pre.length + i := ⟨n - pre.length, by omega⟩
    rw [List.drop_length_add_append] at hsignature hsignature'
    rw [← List.map_drop] at hsignature'
    rcases hbrace : bodyBrace (Tokens.behind source m).stop ((u :: post).drop i) with e | q
    · have hbrace' := bodyBrace_map_error (moves_moved hdrop m m) hbrace
      rw [block_of_header_error hkind (.inr ⟨a, _, hsignature, hbrace⟩),
        block_of_header_error hkind (.inr ⟨a, _, hsignature', hbrace'⟩)]
      exact .fails (.of_bare rfl)
    · obtain ⟨brace, rest, hrest, hopen, -⟩ := bodyBrace_eq_ok_iff.mp hbrace
      rw [hrest] at hsignature hsignature'
      exact brace_insert hdrop hp hp' hitems hitems' hu hkind hrest hopen hsignature hsignature'
  · rw [block_of_header_error hkind (.inl hsignature),
      block_of_header_error hkind (.inl hsignature')]
    exact .fails (.of_bare he)

end

end

/-! ## Inserting filler -/

section

variable {start tail w : List UInt8} (hw : Scan.Filler w)

include hw

theorem Reads.insert {m : Nat} {before : Tree} {u : Token} {pre post : List Token}
    (h : Reads (start ++ tail) (Tokens.ofSource (start ++ tail)) before
      (Tokens.behind (start ++ tail) m))
    (hitems : (Tokens.behind (start ++ tail) m).items = pre ++ u :: post)
    (hu : u.position.offset = start.length) :
    Reads (start ++ (w ++ tail)) (Tokens.ofSource (start ++ (w ++ tail))) before
      (Tokens.behind (start ++ (w ++ tail)) m) := by
  rw [← Tokens.behind_zero] at h ⊢
  cases pre with
  | nil => exact h.local (Tokens.alikeBefore_insert hw) hitems (by omega)
  | cons t pre =>
      have hlt := Tokens.offset_lt_of_split hitems
      exact h.local (Tokens.alikeBefore_insert hw) hitems (by omega)

theorem sameMeaning_insert_first {m : Nat} {before : Tree} {u : Token} {items : List Token}
    (h : Reads (start ++ tail) (Tokens.ofSource (start ++ tail)) before
      (Tokens.behind (start ++ tail) m))
    (hitems : (Tokens.behind (start ++ tail) m).items = u :: items)
    (hu : u.position.offset = start.length) :
    SameMeaning (Tree.ofBytes (start ++ tail)) (Tree.ofBytes (start ++ (w ++ tail))) := by
  have hdrop := List.drop_insert start w tail
  have hsplit : (Tokens.behind (start ++ tail) m).items = [] ++ u :: items := hitems
  have h' := h.insert hw hsplit hu
  -- Both sources stand right before the same bytes.
  have hhere : Tokens.behind (start ++ tail) m = Tokens.behind (start ++ tail) start.length := by
    obtain ⟨-, -, -, hbehind⟩ := Tokens.behind_of_mem hsplit
    rw [Tokens.mk.injEq]
    refine ⟨?_, Tokens.stop_behind_eq _ m _⟩
    rw [← hu, hbehind, hitems]
  have hhere' : Tokens.behind (start ++ (w ++ tail)) m =
      Tokens.behind (start ++ (w ++ tail)) (start.length + w.length) := by
    rw [Tokens.mk.injEq]
    refine ⟨?_, Tokens.stop_behind_eq _ m _⟩
    rw [Tokens.behind_insert hw hsplit hu, List.nil_append, ← hitems, hhere]
    exact (Tokens.behind_moved hdrop 0).symm
  rw [hhere] at h
  rw [hhere'] at h'
  exact sameMeaning_of_reads hdrop (by simp) (by simp) (j := 0) rfl h h'

theorem sameMeaning_insert_inside {m : Nat} {before : Tree} {t u : Token} {pre post : List Token}
    (h : Reads (start ++ tail) (Tokens.ofSource (start ++ tail)) before
      (Tokens.behind (start ++ tail) m))
    (hitems : (Tokens.behind (start ++ tail) m).items = t :: (pre ++ u :: post))
    (hu : u.position.offset = start.length)
    (hreach : pre.length < reach (start ++ tail) t
      ⟨pre ++ u :: post, (Tokens.behind (start ++ tail) m).stop⟩) :
    SameMeaning (Tree.ofBytes (start ++ tail)) (Tree.ofBytes (start ++ (w ++ tail))) := by
  have hdrop := List.drop_insert start w tail
  have hp : start.length ≤ (start ++ tail).length := by simp
  have hp' : start.length + w.length ≤ (start ++ (w ++ tail)).length := by simp
  have hsplit : (Tokens.behind (start ++ tail) m).items = (t :: pre) ++ u :: post := hitems
  have hitems' := Tokens.behind_insert hw hsplit hu
  refine sameMeaning_of_step hdrop hp hp' h (h.insert hw hsplit hu) hitems hitems' ?_
  by_cases hkind : t.kind = .keyword .action
  · exact action_insert hdrop hp hp' hitems hitems' hu hkind hreach
  · exact block_insert hdrop hitems hu hkind hreach

/-- Filler in front of any token that reading comes to. -/
theorem sameMeaning_insert (h : ComesTo (start ++ tail) start.length) :
    SameMeaning (Tree.ofBytes (start ++ tail)) (Tree.ofBytes (start ++ (w ++ tail))) := by
  obtain ⟨before, mid, t, items, u, hreads, hmid, hmem, hu⟩ := h
  rw [← Tokens.behind_zero] at hreads
  obtain ⟨m, rfl⟩ := hreads.exists_behind
  rcases List.mem_cons.mp hmem with rfl | hmem
  · exact sameMeaning_insert_first hw hreads hmid hu
  · obtain ⟨pre, more, htake⟩ := List.append_of_mem hmem
    generalize hreach : reach (start ++ tail) t ⟨items, (Tokens.behind (start ++ tail) m).stop⟩ = r
      at htake
    have hlt : pre.length < r := by
      have hlength := congrArg List.length htake
      simp only [List.length_take, List.length_append, List.length_cons] at hlength
      omega
    obtain ⟨post, rfl⟩ : ∃ post, items = pre ++ u :: post := by
      refine ⟨more ++ items.drop r, ?_⟩
      rw [← List.cons_append, ← List.append_assoc, ← htake, List.take_append_drop]
    rw [← hreach] at hlt
    exact sameMeaning_insert_inside hw hreads hmid hu hlt

end

/-- What reading comes to starts with a byte that is a whole character, so the
source falls into two texts there. -/
theorem ComesTo.exists_drop {source : List UInt8} {p : Nat} (h : ComesTo source p) :
    ∃ c rest, source.drop p = c :: rest ∧ c < 128 := by
  obtain ⟨before, mid, t, items, u, hreads, hmid, hmem, rfl⟩ := h
  rw [← Tokens.behind_zero] at hreads
  obtain ⟨m, rfl⟩ := hreads.exists_behind
  have hall : u ∈ (Tokens.behind source m).items := by
    rw [hmid]
    exact List.cons_subset_cons t (List.take_subset _ items) hmem
  obtain ⟨pre, post, hitems⟩ := List.append_of_mem hall
  obtain ⟨c, rest, hdrop, hread⟩ := Tokens.exists_drop_of_token hitems
  refine ⟨c, rest, hdrop, ?_⟩
  by_contra hlt
  exact hread (Scan.read_of_le (UInt8.not_lt.mp hlt) rest)

/-- Layout does not change meaning. Wherever the parser comes to a token of a
source, the source can be cut, and whatever filler is put there, the source
declares the same up to lines, or fails for the same reason. -/
theorem ofSource_insert {s : String} {p : Nat} (h : ComesTo (Text.bytes s) p) :
    ∃ a b, s = a ++ b ∧ (Text.bytes a).length = p ∧ ∀ w, Scan.Filler (Text.bytes w) →
      SameMeaning (Tree.ofSource s) (Tree.ofSource (a ++ w ++ b)) := by
  obtain ⟨c, rest, hdrop, hc⟩ := h.exists_drop
  have hbytes : Text.bytes s = (Text.bytes s).take p ++ c :: rest := by
    rw [← hdrop, List.take_append_drop]
  have hlength : ((Text.bytes s).take p).length = p := by
    apply List.length_take_of_le
    by_contra hlt
    rw [List.drop_eq_nil_of_le (by omega)] at hdrop
    cases hdrop
  obtain ⟨a, b, rfl, ha, -⟩ := Text.exists_append_of_bytes hc hbytes
  refine ⟨a, b, rfl, by rw [ha, hlength], ?_⟩
  intro w hw
  rw [Text.bytes_append] at h
  rw [← ha] at hlength
  rw [← hlength] at h
  simp only [Tree.ofSource, Text.bytes_append, List.append_assoc]
  exact sameMeaning_insert hw h

/-- Filler between a skipped slash and a step of a route, behind a body that
hides a quote and the start of a comment. -/
theorem ofSource_insert_step :
    ComesTo (Text.bytes r#"do f() {'"/*'} route {GET "/" =>/f}"#) 33 ∧
      ∃ a b, r#"do f() {'"/*'} route {GET "/" =>/f}"# = a ++ b ∧
        (Text.bytes a).length = 33 ∧
          SameMeaning (Tree.ofSource r#"do f() {'"/*'} route {GET "/" =>/f}"#)
            (Tree.ofSource (a ++ " /* \x7d */// \"\n" ++ b)) := by
  have hfiller : Scan.Filler (Text.bytes " /* \x7d */// \"\n") :=
    ⟨' '.toUInt8, _, rfl, rfl, .blockComment (by decide :
      ¬ ['*'.toUInt8, '/'.toUInt8] <:+: Text.bytes r" } ") (.lineComment (by decide :
        '\n'.toUInt8 ∉ Text.bytes " \"") .nil)⟩
  have hcomes : ComesTo (Text.bytes r#"do f() {'"/*'} route {GET "/" =>/f}"#) 33 := by
    refine ⟨_, _, _, _, ⟨.name, "f", ⟨33, 1, 34⟩⟩, .step rfl rfl (.done _), rfl, ?_, rfl⟩
    decide +kernel
  obtain ⟨a, b, hs, ha, h⟩ := ofSource_insert hcomes
  exact ⟨hcomes, a, b, hs, ha, h _ hfiller⟩

end Parser

end BlockLang
