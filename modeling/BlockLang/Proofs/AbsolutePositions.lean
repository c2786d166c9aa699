import BlockLang.Proofs.BlockRecognition
import BlockLang.Proofs.Layout
import BlockLang.Proofs.Opacity

/-! # Positions are absolute

Lines and columns are counted in three places: along the tokens, at the end of a body behind which
tokens are made anew, and where the line of a brace is looked up. All of them count from the start
of the source, so it does not matter how often tokens were made anew before.
-/

namespace BlockLang

namespace Position

/-- The line of an offset: one more than the number of newlines before it. -/
def lineAt (source : List UInt8) (offset : Nat) : Nat :=
  1 + (source.take offset).count '\n'.toUInt8

/-- The column of an offset: one more than the bytes since the last newline
before it, or since the start of the source. -/
def columnAt (source : List UInt8) (offset : Nat) : Nat :=
  1 + ((source.take offset).reverse.takeWhile (· != '\n'.toUInt8)).length

/-- The column counts the bytes since the last newline. -/
theorem column_advance_start (bs : List UInt8) :
    (start.advance bs).column = 1 + (bs.reverse.takeWhile (· != '\n'.toUInt8)).length := by
  induction bs using List.reverseRecOn with
  | nil => rfl
  | append_singleton bs b ih =>
      rw [advance_append, List.reverse_append, List.reverse_singleton, List.singleton_append]
      change ((start.advance bs).next b).column = _
      unfold next
      split
      next hb =>
        rw [hb, List.takeWhile_cons_of_neg (by decide)]
        rfl
      next hb =>
        rw [List.takeWhile_cons_of_pos (by simpa using hb), List.length_cons]
        simp only [ih]
        omega

/-- The position reached by reading up to an offset is the one that the offset
has. -/
theorem ofOffset_eq {source : List UInt8} {offset : Nat} (h : offset ≤ source.length) :
    ofOffset source offset = ⟨offset, lineAt source offset, columnAt source offset⟩ := by
  rw [Position.mk.injEq]
  exact ⟨offset_ofOffset h, line_ofOffset source offset,
    column_advance_start (source.take offset)⟩

theorem columnAt_le {source : List UInt8} {offset : Nat} (h : offset ≤ source.length) :
    columnAt source offset ≤ offset + 1 := by
  have hle := (List.takeWhile_sublist (· != '\n'.toUInt8)
    (l := (source.take offset).reverse)).length_le
  rw [List.length_reverse, List.length_take_of_le h] at hle
  unfold columnAt
  omega

end Position

namespace Tokens

variable {source : List UInt8}

/-- Making tokens anew from an offset on, with the line and the column that the
offset has, gives the tokens behind it. -/
theorem scanFrom_eq_behind {offset : Nat} (h : offset ≤ source.length) :
    scanFrom source offset (Position.lineAt source offset) (Position.columnAt source offset) =
      behind source offset := by
  have hcolumn := Position.columnAt_le h
  have hpos : 1 ≤ Position.columnAt source offset := Nat.le_add_right _ _
  have hmin : min (Position.columnAt source offset - 1) offset + 1 =
      Position.columnAt source offset := by omega
  rw [behind, Position.ofOffset_eq h]
  simp only [scanFrom, Nat.min_eq_left h, hmin]

/-- Whether tokens stand where their source says: each at the line and the
column of its offset, in order, and before the end of the source. -/
structure Placed (source : List UInt8) (ts : Tokens) : Prop where
  position : ∀ t ∈ ts.items, t.position = ⟨t.position.offset,
    Position.lineAt source t.position.offset, Position.columnAt source t.position.offset⟩
  /-- A line begins inside the source, so what a column subtracts from its offset is no more than
  the offset. -/
  column : ∀ t ∈ ts.items, t.position.column ≤ t.position.offset + 1
  increasing : ts.items.Pairwise fun t u => t.position.offset < u.position.offset
  inside : ∀ t ∈ ts.items, t.position.offset < source.length
  stop : ts.stop = ⟨source.length, Position.lineAt source source.length,
    Position.columnAt source source.length⟩

/-- Tokens behind any offset stand where their source says. -/
theorem placed_behind (source : List UInt8) (m : Nat) : (behind source m).Placed source := by
  have hmem : ∀ t ∈ (behind source m).items, t.position.offset < source.length ∧
      t.position = Position.ofOffset source t.position.offset := by
    intro t ht
    obtain ⟨before, after, hitems⟩ := List.append_of_mem ht
    obtain ⟨-, hlt, hposition, -⟩ := behind_of_mem hitems
    exact ⟨hlt, hposition⟩
  have hposition : ∀ t ∈ (behind source m).items, t.position = ⟨t.position.offset,
      Position.lineAt source t.position.offset, Position.columnAt source t.position.offset⟩ := by
    intro t ht
    obtain ⟨hlt, hposition⟩ := hmem t ht
    rwa [Position.ofOffset_eq (Nat.le_of_lt hlt)] at hposition
  refine ⟨hposition, ?_, Scan.tokensFrom_pairwise _ _ _, fun t ht => (hmem t ht).1, ?_⟩
  · intro t ht
    rw [congrArg Position.column (hposition t ht)]
    exact Position.columnAt_le (Nat.le_of_lt (hmem t ht).1)
  · rw [stop_behind, ← Position.ofOffset_eq (Nat.le_refl _), Position.ofOffset, List.take_length]

end Tokens

theorem Grammar.Listed.exists_of_mem {α : Type} {item : Phrase α} {ts : List Token} {as : List α}
    {a : α} (h : Listed item ts as) (ha : a ∈ as) :
    ∃ before used after, ts = before ++ (used ++ after) ∧ item used a := by
  induction h with
  | close => cases ha
  | @cons commas us vs b bs _ hitem _ ih =>
      rcases List.mem_cons.mp ha with rfl | hmem
      · exact ⟨commas, us, vs, rfl, hitem⟩
      · obtain ⟨before, used, after, rfl, hused⟩ := ih hmem
        refine ⟨commas ++ (us ++ before), used, after, ?_, hused⟩
        simp only [List.append_assoc]

namespace Parser

variable {source : List UInt8}

theorem Reads.placed {before : Tree} {mid : Tokens}
    (h : Reads source (Tokens.ofSource source) before mid) : mid.Placed source := by
  rw [← Tokens.behind_zero] at h
  obtain ⟨m, rfl⟩ := h.exists_behind
  exact Tokens.placed_behind source m

/-! ## Behind a body -/

/-- Reading comes to an action whose body opens: its keyword `t` is next with
`ts` behind it, and behind its signature the brace with `rest` behind it. -/
structure OpensBody (source : List UInt8) (t : Token) (ts : Tokens) (name : String)
    (params : List String) (brace : Token) (rest : List Token) : Prop where
  reached : ∃ before, Reads source (Tokens.ofSource source) before ⟨t :: ts.items, ts.stop⟩
  keyword : t.kind = .keyword .action
  header : signature ts.stop ts.items = .ok ((name, params), brace :: rest)
  opening : brace.kind = .mark .braceOpen

/-- The two ways to go on behind a body: with the tokens behind its closing
brace if that is among them, or with tokens made anew. -/
inductive GoesOn (source : List UInt8) (body : Block) (ts : Tokens) : Tokens → Prop
  | found {before later : List Token} {close : Token} (hitems : ts.items = before ++ close :: later)
      (hoffset : close.position.offset = body.closeOffset)
      (hkind : close.kind = .mark .braceClose) : GoesOn source body ts ⟨later, ts.stop⟩
  | anew : GoesOn source body ts (rescan source body)

/-- Whichever way is taken behind a body, it is one of the two. -/
theorem goesOn_skipBody (source : List UInt8) (body : Block) (ts : Tokens) :
    GoesOn source body ts (skipBody source body ts) := by
  unfold skipBody
  split
  · exact .anew
  next t later hlater =>
    split
    next hclose =>
      have hsplit : ts.items =
          ts.items.takeWhile (·.position.offset < body.closeOffset) ++ t :: later := by
        rw [← hlater, List.takeWhile_append_dropWhile]
      exact .found hsplit hclose.1 (of_decide_eq_true hclose.2)
    next => exact .anew

section

variable {t brace : Token} {ts : Tokens} {name : String} {params : List String} {rest : List Token}

theorem OpensBody.exists_behind (h : OpensBody source t ts name params brace rest) :
    ∃ m used, (Tokens.behind source m).items = (t :: used) ++ brace :: rest ∧
      (Tokens.behind source m).stop = ts.stop := by
  obtain ⟨before, hreads⟩ := h.reached
  rw [← Tokens.behind_zero] at hreads
  obtain ⟨m, hm⟩ := hreads.exists_behind
  obtain ⟨used, hsplit, -⟩ := signature_taken h.header
  refine ⟨m, used, ?_, ?_⟩
  · rw [← hm, List.cons_append, ← hsplit]
  · rw [← hm]

/-- Where a body opens, a brace is found on its line, so the search by line
never fails. -/
theorem OpensBody.exists_locate (h : OpensBody source t ts name params brace rest) :
    ∃ n, Block.locate source brace.position.line = .ok n := by
  obtain ⟨m, used, hitems, -⟩ := h.exists_behind
  exact Tokens.locate_of_brace hitems h.opening

/-- What becomes of an action whose body opens is settled by what its own brace
encloses. -/
theorem OpensBody.block_eq (h : OpensBody source t ts name params brace rest) :
    block source t ts =
      match Block.extract source brace.position.offset with
      | .ok body => .ok (ofAction ⟨name, params, body.text, t.position.line⟩,
          skipBody source body ⟨brace :: rest, ts.stop⟩)
      | .error e => .error (.block e) := by
  obtain ⟨n, hlocate⟩ := h.exists_locate
  exact block_of_brace h.keyword h.header h.opening hlocate

/-- Both ways of leaving a body give the tokens behind its closing brace. -/
theorem OpensBody.goesOn_eq {body : Block} {later : Tokens}
    (h : OpensBody source t ts name params brace rest)
    (hbody : Block.extract source brace.position.offset = .ok body)
    (hlater : GoesOn source body ⟨brace :: rest, ts.stop⟩ later) :
    later = Tokens.behind source body.endOffset := by
  obtain ⟨m, used, hitems, hstop⟩ := h.exists_behind
  cases hlater with
  | anew => rfl
  | @found before later close hsplit hoffset hkind =>
      obtain ⟨after, hdrop⟩ := drop_of_extract hbody
      have hrest : brace :: rest = before ++ close :: later := hsplit
      have hall : (Tokens.behind source m).items = ((t :: used) ++ before) ++ close :: later := by
        rw [hitems, hrest, List.append_assoc]
      rw [← hoffset] at hdrop
      rw [Block.endOffset, ← hoffset, ← hstop]
      exact Tokens.behind_close hall hdrop

/-- The two ways of leaving a body agree. Wherever an action is read whose body
ends, reading goes on in one of them, and both give the tokens that are made
from the end of the body on, with the line and the column that this end has in
the source. -/
theorem goesOn_eq_scanFrom {body : Block}
    (h : OpensBody source t ts name params brace rest)
    (hbody : Block.extract source brace.position.offset = .ok body) :
    block source t ts = .ok (ofAction ⟨name, params, body.text, t.position.line⟩,
        skipBody source body ⟨brace :: rest, ts.stop⟩) ∧
      GoesOn source body ⟨brace :: rest, ts.stop⟩
        (skipBody source body ⟨brace :: rest, ts.stop⟩) ∧
      ∀ later, GoesOn source body ⟨brace :: rest, ts.stop⟩ later →
        later = Tokens.scanFrom source body.endOffset (Position.lineAt source body.endOffset)
          (Position.columnAt source body.endOffset) := by
  have hend : body.endOffset ≤ source.length := (closeOffset_lt hbody).2
  refine ⟨?_, goesOn_skipBody _ _ _, ?_⟩
  · rw [h.block_eq, hbody]
  · intro later hlater
    rw [Tokens.scanFrom_eq_behind hend]
    exact h.goesOn_eq hbody hlater

end

/-- Behind a body with a quote that swallows its closing brace, tokens are made
anew. They stand on the second line, behind the brace. -/
theorem goesOn_eq_scanFrom_quote :
    let source := Text.bytes "do f() \x7b\n'\"'\x7d import \"a\""
    let brace : Token := ⟨.mark .braceOpen, r"{", ⟨7, 1, 8⟩⟩
    let swallowed : List Token := [⟨.string, r"'} import ", ⟨10, 2, 2⟩⟩,
      ⟨.name, "a", ⟨22, 2, 14⟩⟩, ⟨.unterminated, "", ⟨23, 2, 15⟩⟩]
    OpensBody source ⟨.keyword .action, "do", ⟨0, 1, 1⟩⟩
        ⟨[⟨.name, "f", ⟨3, 1, 4⟩⟩, ⟨.mark .parenOpen, "(", ⟨4, 1, 5⟩⟩,
          ⟨.mark .parenClose, ")", ⟨5, 1, 6⟩⟩, brace] ++ swallowed, ⟨24, 2, 16⟩⟩
        "f" [] brace swallowed ∧
      Block.extract source 7 = .ok ⟨"'\"'", 12⟩ ∧
      skipBody source ⟨"'\"'", 12⟩ ⟨brace :: swallowed, ⟨24, 2, 16⟩⟩ =
        Tokens.scanFrom source 13 2 5 := by
  intro source brace swallowed
  -- Scanned from the start, the quotation mark in the body swallows the block behind it.
  have hscan : Tokens.ofSource source =
      ⟨[⟨.keyword .action, "do", ⟨0, 1, 1⟩⟩, ⟨.name, "f", ⟨3, 1, 4⟩⟩,
        ⟨.mark .parenOpen, "(", ⟨4, 1, 5⟩⟩, ⟨.mark .parenClose, ")", ⟨5, 1, 6⟩⟩, brace] ++
        swallowed, ⟨24, 2, 16⟩⟩ := by decide +kernel
  have hbody : Block.extract source 7 = .ok ⟨"'\"'", 12⟩ := by decide +kernel
  have hopens : OpensBody source ⟨.keyword .action, "do", ⟨0, 1, 1⟩⟩
      ⟨[⟨.name, "f", ⟨3, 1, 4⟩⟩, ⟨.mark .parenOpen, "(", ⟨4, 1, 5⟩⟩,
        ⟨.mark .parenClose, ")", ⟨5, 1, 6⟩⟩, brace] ++ swallowed, ⟨24, 2, 16⟩⟩
      "f" [] brace swallowed := by
    refine ⟨⟨{}, ?_⟩, rfl, rfl, rfl⟩
    rw [hscan]
    exact .done _
  obtain ⟨-, hgoesOn, heq⟩ := goesOn_eq_scanFrom hopens hbody
  refine ⟨hopens, hbody, ?_⟩
  rw [heq _ hgoesOn]
  decide +kernel

/-! ## Lines of declarations -/

open Grammar

/-- Whether reading comes to a block of the grammar that is made of some tokens:
they are next behind the blocks before. -/
def BlockAt (source : List UInt8) (used : List Token) (tree : Tree) : Prop :=
  ∃ before mid rest, Reads source (Tokens.ofSource source) before mid ∧ mid.items = used ++ rest ∧
    IsBlock used tree

variable {tree : Tree} {last : Tokens}

theorem BlockAt.isBlock {used : List Token} (h : BlockAt source used tree) : IsBlock used tree := by
  obtain ⟨-, -, -, -, -, hused⟩ := h
  exact hused

theorem BlockAt.line_eq {used : List Token} {t : Token} (h : BlockAt source used tree)
    (ht : t ∈ used) :
    t.position.line = Position.lineAt source t.position.offset := by
  obtain ⟨before, mid, rest, hreads, hitems, -⟩ := h
  have hmem : t ∈ mid.items := by
    rw [hitems]
    exact List.mem_append_left rest ht
  exact congrArg Position.line (hreads.placed.position t hmem)

/-- Whatever a run declares is declared by one of its blocks. -/
theorem Reads.exists_block {α : Type} {ts : Tokens} {a : α} (view : Tree → List α)
    (hview : ∀ t u, view (t ++ u) = view t ++ view u) (hempty : view {} = [])
    (h : Reads source ts tree last) (ha : a ∈ view tree) :
    ∃ before mid t items one later, Reads source ts before mid ∧ mid.items = t :: items ∧
      block source t ⟨items, mid.stop⟩ = .ok (one, later) ∧ a ∈ view one := by
  induction h with
  | done ts =>
      rw [hempty] at ha
      cases ha
  | @step ts later last t items one more hitems hblock _ ih =>
      rw [hview] at ha
      rcases List.mem_append.mp ha with hone | hmore
      · exact ⟨{}, ts, t, items, one, later, .done ts, hitems, hblock, hone⟩
      · obtain ⟨before, mid, t', items', one', later', hreads, h'⟩ := ih hmore
        exact ⟨_, mid, t', items', one', later', .step hitems hblock hreads, h'⟩

/-- Whether the declarations of a tree are on the lines that their source says:
each on that of its keyword, a route on that of its verb. The body of an action
is what its own brace encloses. -/
structure Located (source : List UInt8) (tree : Tree) : Prop where
  schemas : ∀ s ∈ tree.schemas, ∃ t used, BlockAt source (t :: used) (ofSchema s) ∧
    t.kind = .keyword .data ∧ s.line = Position.lineAt source t.position.offset
  actions : ∀ a ∈ tree.actions, ∃ t ts brace rest c,
    OpensBody source t ts a.name a.params brace rest ∧
      Block.extract source brace.position.offset = .ok ⟨a.body, c⟩ ∧
        a.line = Position.lineAt source t.position.offset
  routes : ∀ r ∈ tree.routes, ∃ before verb used after rs,
    BlockAt source (before ++ (verb :: used ++ after)) (ofRoutes rs) ∧ r ∈ rs ∧
      IsRoute (verb :: used) r ∧ verb.kind = .verb r.verb ∧
        r.line = Position.lineAt source verb.position.offset
  migrations : ∀ m ∈ tree.migrations, ∃ t used, BlockAt source (t :: used) (ofMigration m) ∧
    t.kind = .keyword .migration ∧ m.line = Position.lineAt source t.position.offset
  imports : ∀ i ∈ tree.imports, ∃ t used, BlockAt source (t :: used) (ofImport i) ∧
    t.kind = .keyword .importing ∧ i.line = Position.lineAt source t.position.offset

/-- What a run declares, other than an action, is made of tokens that reading
comes to, and these are a block of the grammar. -/
theorem exists_blockAt {α : Type} {a : α} (view : Tree → List α)
    (hview : ∀ t u, view (t ++ u) = view t ++ view u) (hempty : view {} = [])
    (haction : ∀ b, view (ofAction b) = [])
    (h : Reads source (Tokens.ofSource source) tree last) (ha : a ∈ view tree) :
    ∃ used one, BlockAt source used one ∧ a ∈ view one := by
  obtain ⟨before, mid, t, items, one, later, hreads, hitems, hblock, hone⟩ :=
    h.exists_block view hview hempty ha
  rcases block_cases hblock with ⟨used, hsplit, hone'⟩ | ⟨-, b, rfl, -⟩ | rfl
  · refine ⟨t :: used, one, ⟨before, mid, later.items, hreads, ?_, hone'⟩, hone⟩
    rw [hitems, List.cons_append]
    exact congrArg (t :: ·) hsplit
  · rw [haction] at hone
    cases hone
  · rw [hempty] at hone
    cases hone

theorem exists_opensBody {a : Action} (h : Reads source (Tokens.ofSource source) tree last)
    (ha : a ∈ tree.actions) :
    ∃ t ts brace rest c, OpensBody source t ts a.name a.params brace rest ∧
      Block.extract source brace.position.offset = .ok ⟨a.body, c⟩ ∧
        a.line = Position.lineAt source t.position.offset := by
  obtain ⟨before, mid, t, items, one, later, hreads, hitems, hblock, hone⟩ :=
    h.exists_block Tree.actions Tree.actions_append rfl ha
  rcases block_cases hblock with ⟨used, -, hone'⟩ | ⟨hkind, b, rfl, haction⟩ | rfl
  · cases hone' <;> cases hone
  · obtain rfl := List.mem_singleton.mp hone
    obtain ⟨items', p, n, body, hsignature, hbrace, -, hextract, hbody, hline, -⟩ :=
      action_eq_ok_iff.mp haction
    obtain ⟨brace, rest, rfl, hopen, rfl⟩ := bodyBrace_eq_ok_iff.mp hbrace
    have hmem : t ∈ mid.items := by
      rw [hitems]
      exact List.mem_cons_self
    refine ⟨t, ⟨items, mid.stop⟩, brace, rest, body.closeOffset, ⟨⟨before, ?_⟩, hkind, hsignature,
      hopen⟩, ?_, ?_⟩
    · rwa [← hitems]
    · rw [hextract, hbody]
    · rw [hline]
      exact congrArg Position.line (hreads.placed.position t hmem)
  · cases hone

/-- A route is made of tokens inside a block of routes, and its line is that of
its verb. -/
theorem exists_routeAt {r : Route} (h : Reads source (Tokens.ofSource source) tree last)
    (hr : r ∈ tree.routes) :
    ∃ before verb used after rs,
      BlockAt source (before ++ (verb :: used ++ after)) (ofRoutes rs) ∧ r ∈ rs ∧
        IsRoute (verb :: used) r ∧ verb.kind = .verb r.verb ∧
          r.line = Position.lineAt source verb.position.offset := by
  obtain ⟨used, one, hblock, hone⟩ :=
    exists_blockAt Tree.routes (fun _ _ => rfl) rfl (fun _ => rfl) h hr
  cases hblock.isBlock with
  | @route t opening labels ts rs _ _ _ hroutes =>
      obtain ⟨pre, used, after, rfl, hroute⟩ := hroutes.exists_of_mem hone
      cases id hroute with
      | @route verb path arrow v ts pipeline hverb =>
          have hsplit :
              t :: (labels ++ opening :: (pre ++ (verb :: path :: arrow :: ts ++ after))) =
                (t :: (labels ++ opening :: pre)) ++ (verb :: path :: arrow :: ts ++ after) := by
            simp only [List.append_assoc, List.cons_append]
          rw [hsplit] at hblock
          refine ⟨_, verb, _, after, rs, hblock, hone, hroute, hverb, hblock.line_eq ?_⟩
          exact List.mem_append_right _ List.mem_cons_self
  | _ => cases hone

/-- The declarations of a source are on the lines that the source says, for each
kind of declaration. -/
theorem located_of_ofBytes (h : Tree.ofBytes source = .ok tree) : Located source tree := by
  obtain ⟨last, hreads, -⟩ := ofBytes_eq_ok_iff.mp h
  refine ⟨?_, fun a ha => exists_opensBody hreads ha, fun r hr => exists_routeAt hreads hr, ?_, ?_⟩
  · intro s hs
    obtain ⟨used, one, hblock, hone⟩ :=
      exists_blockAt Tree.schemas (fun _ _ => rfl) rfl (fun _ => rfl) hreads hs
    cases hblock.isBlock with
    | data ht =>
        obtain rfl := List.mem_singleton.mp hone
        exact ⟨_, _, hblock, ht, hblock.line_eq List.mem_cons_self⟩
    | _ => cases hone
  · intro m hm
    obtain ⟨used, one, hblock, hone⟩ :=
      exists_blockAt Tree.migrations (fun _ _ => rfl) rfl (fun _ => rfl) hreads hm
    cases hblock.isBlock with
    | migration ht =>
        obtain rfl := List.mem_singleton.mp hone
        exact ⟨_, _, hblock, ht, hblock.line_eq List.mem_cons_self⟩
    | _ => cases hone
  · intro i hi
    obtain ⟨used, one, hblock, hone⟩ :=
      exists_blockAt Tree.imports (fun _ _ => rfl) rfl (fun _ => rfl) hreads hi
    cases hblock.isBlock with
    | importing ht =>
        obtain rfl := List.mem_singleton.mp hone
        exact ⟨_, _, hblock, ht, hblock.line_eq List.mem_cons_self⟩
    | _ => cases hone

/-! ## Failures -/

theorem extract_ne_noBrace {offset line : Nat} :
    Block.extract source offset ≠ .error (.noBrace line) := by
  simp only [Block.extract]
  split <;> simp

/-- A source that has no tree because of a body has an action whose own brace is
never closed. -/
theorem exists_opensBody_of_error {e : BlockError} (h : Tree.ofBytes source = .error (.block e)) :
    ∃ t ts name params brace rest, OpensBody source t ts name params brace rest ∧
      Block.extract source brace.position.offset = .error e := by
  obtain ⟨before, mid, t, items, hreads, hitems, herror⟩ := ofBytes_eq_error_iff.mp h
  have hkind : t.kind = .keyword .action := by
    by_contra hkind
    exact block_ne_error hkind herror
  rcases hsignature : signature mid.stop items with e' | ⟨⟨name, params⟩, later⟩
  · rw [block_of_header_error hkind (.inl hsignature)] at herror
    cases herror
  · rcases hbrace : bodyBrace mid.stop later with e' | p
    · rw [block_of_header_error hkind (.inr ⟨_, _, hsignature, hbrace⟩)] at herror
      cases herror
    · obtain ⟨brace, rest, rfl, hopen, -⟩ := bodyBrace_eq_ok_iff.mp hbrace
      have hbody : OpensBody source t ⟨items, mid.stop⟩ name params brace rest := by
        refine ⟨⟨before, ?_⟩, hkind, hsignature, hopen⟩
        rwa [← hitems]
      refine ⟨t, _, name, params, brace, rest, hbody, ?_⟩
      rw [hbody.block_eq] at herror
      rcases hextract : Block.extract source brace.position.offset with e' | body
      · rw [hextract] at herror
        simpa using herror
      · rw [hextract] at herror
        cases herror

/-- Positions are absolute and bodies are always located. Whatever tokens
reading comes to, however often they were made anew, stand where their source
says, and so do the declarations of its tree. Where the body of an action opens,
a brace is found on the line of the opening brace, and the body is what this
brace itself encloses; no source fails for the lack of a brace. -/
theorem positions_absolute (source : List UInt8) :
    (∀ before mid, Reads source (Tokens.ofSource source) before mid → mid.Placed source) ∧
    (∀ tree, Tree.ofBytes source = .ok tree → Located source tree) ∧
    (∀ t ts name params brace rest, OpensBody source t ts name params brace rest →
      (∃ n, Block.locate source brace.position.line = .ok n) ∧
        block source t ts =
          match Block.extract source brace.position.offset with
          | .ok body => .ok (ofAction ⟨name, params, body.text, t.position.line⟩,
              skipBody source body ⟨brace :: rest, ts.stop⟩)
          | .error e => .error (.block e)) ∧
    (∀ e, Tree.ofBytes source = .error (.block e) → ∃ t ts name params brace rest,
      OpensBody source t ts name params brace rest ∧
        Block.extract source brace.position.offset = .error e) ∧
    ∀ line, Tree.ofBytes source ≠ .error (.block (.noBrace line)) := by
  refine ⟨fun _ _ h => h.placed, fun _ h => located_of_ofBytes h, ?_,
    fun _ h => exists_opensBody_of_error h, ?_⟩
  · intro t ts name params brace rest h
    exact ⟨h.exists_locate, h.block_eq⟩
  · intro line h
    obtain ⟨t, ts, name, params, brace, rest, -, hextract⟩ := exists_opensBody_of_error h
    exact extract_ne_noBrace hextract

/-- Tokens made anew on the second line, behind a body that swallows them. Their
columns count from the newline inside the body. -/
theorem positions_absolute_quote :
    let source := Text.bytes "do f() \x7b\n'\"'\x7d import \"a\""
    let anew : Tokens := ⟨[⟨.keyword .importing, "import", ⟨14, 2, 6⟩⟩,
      ⟨.string, "a", ⟨21, 2, 13⟩⟩], ⟨24, 2, 16⟩⟩
    Reads source (Tokens.ofSource source) (ofAction ⟨"f", [], "'\"'", 1⟩ ++ {}) anew ∧
      anew.Placed source ∧
      Located source { actions := [⟨"f", [], "'\"'", 1⟩], imports := [⟨"a", 2⟩] } := by
  intro source anew
  have hreads :
      Reads source (Tokens.ofSource source) (ofAction ⟨"f", [], "'\"'", 1⟩ ++ {}) anew := by
    have hitems : (Tokens.ofSource source).items =
        ⟨.keyword .action, "do", ⟨0, 1, 1⟩⟩ :: (Tokens.ofSource source).items.tail := by
      decide +kernel
    refine .step hitems ?_ (.done _)
    decide +kernel
  have htree : Tree.ofBytes source =
      .ok { actions := [⟨"f", [], "'\"'", 1⟩], imports := [⟨"a", 2⟩] } := by decide +kernel
  obtain ⟨hplaced, hlocated, -⟩ := positions_absolute source
  exact ⟨hreads, hplaced _ _ hreads, hlocated _ htree⟩

end Parser

end BlockLang
