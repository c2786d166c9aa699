import BlockLang.Proofs.Declarations
import BlockLang.Proofs.Enclosure

/-! # What a block uses up

Behind every block, the tokens that are left are those of the source from some offset on, also
where an action cuts a body out of them. What a block declares is settled by the tokens that it
uses up and, for an action, by the bytes of its body.
-/

namespace BlockLang

/-! ## Trees -/

def Schema.mapLine (lines : Nat → Nat) (s : Schema) : Schema := { s with line := lines s.line }

def Action.mapLine (lines : Nat → Nat) (a : Action) : Action := { a with line := lines a.line }

def Route.mapLine (lines : Nat → Nat) (r : Route) : Route := { r with line := lines r.line }

def Migration.mapLine (lines : Nat → Nat) (m : Migration) : Migration :=
  { m with line := lines m.line }

def Import.mapLine (lines : Nat → Nat) (i : Import) : Import := { i with line := lines i.line }

namespace Tree

def mapLines (lines : Nat → Nat) (t : Tree) : Tree where
  schemas := t.schemas.map (Schema.mapLine lines)
  actions := t.actions.map (Action.mapLine lines)
  routes := t.routes.map (Route.mapLine lines)
  migrations := t.migrations.map (Migration.mapLine lines)
  imports := t.imports.map (Import.mapLine lines)

theorem empty_append (t : Tree) : ({} : Tree) ++ t = t := rfl

theorem append_def (t u : Tree) : t ++ u =
    ⟨t.schemas ++ u.schemas, t.actions ++ u.actions, t.routes ++ u.routes,
      t.migrations ++ u.migrations, t.imports ++ u.imports⟩ := rfl

theorem append_empty (t : Tree) : t ++ ({} : Tree) = t := by
  simp [append_def]

theorem append_assoc (t u v : Tree) : t ++ u ++ v = t ++ (u ++ v) := by
  simp [append_def]

theorem actions_append (t u : Tree) : (t ++ u).actions = t.actions ++ u.actions := rfl

/-- Lines are changed declaration by declaration, so it makes no difference
whether trees are put together before. -/
theorem mapLines_append (lines : Nat → Nat) (t u : Tree) :
    (t ++ u).mapLines lines = t.mapLines lines ++ u.mapLines lines := by
  simp [append_def, mapLines]

end Tree

/-! ## Tokens behind an offset -/

namespace Tokens

/-- The tokens of a source from an offset on. -/
def behind (source : List UInt8) (offset : Nat) : Tokens :=
  scan (Position.ofOffset source offset) (source.drop offset)

variable {source : List UInt8}

theorem behind_zero (source : List UInt8) : behind source 0 = ofSource source := rfl

theorem stop_behind (source : List UInt8) (offset : Nat) :
    (behind source offset).stop = Position.start.advance source := by
  simp only [behind, scan, Position.ofOffset]
  rw [← Position.advance_append, List.take_append_drop]

theorem behind_length (source : List UInt8) :
    behind source source.length = ⟨[], Position.start.advance source⟩ := by
  have hstop := stop_behind source source.length
  simp only [behind, scan, List.drop_length] at hstop ⊢
  rw [hstop]
  rfl

variable {m : Nat} {t : Token}

/-- What follows from a token on is what stands behind its offset. -/
theorem behind_of_mem {before after : List Token}
    (h : (behind source m).items = before ++ t :: after) :
    m ≤ t.position.offset ∧ t.position.offset < source.length ∧
      t.position = Position.ofOffset source t.position.offset ∧
        (behind source t.position.offset).items = t :: after := by
  obtain ⟨size, hsize, hposition, hafter⟩ := Scan.resume h
  rw [List.length_drop] at hsize
  rw [Position.advance_ofOffset] at hposition
  have hoffset : t.position.offset = m + size := by
    rw [hposition, Position.offset_ofOffset (by omega)]
  refine ⟨by omega, by omega, ?_, ?_⟩
  · rw [hoffset, ← hposition]
  · rw [hafter, List.drop_drop, hoffset]
    simp only [behind, scan]
    rw [← hposition]

theorem offset_lt_of_split {u : Token} {used rest : List Token}
    (h : (behind source m).items = t :: used ++ u :: rest) :
    t.position.offset < u.position.offset := by
  have hpairwise := Scan.tokensFrom_pairwise (Position.ofOffset source m) 0 (source.drop m)
  have hscan : Scan.tokensFrom (Position.ofOffset source m) 0 (source.drop m) =
      t :: (used ++ u :: rest) := h
  rw [hscan] at hpairwise
  exact (List.pairwise_cons.mp hpairwise).1 u (by simp)

/-- What is left behind some tokens stands behind some offset, which is the end
of the source if nothing is left. -/
theorem exists_behind {used rest : List Token} (h : (behind source m).items = t :: used ++ rest) :
    ∃ n, t.position.offset < n ∧ n ≤ source.length ∧
      (⟨rest, (behind source m).stop⟩ : Tokens) = behind source n := by
  cases rest with
  | nil =>
      have hfirst : (behind source m).items = [] ++ t :: used := by simpa using h
      obtain ⟨-, hlt, -⟩ := behind_of_mem hfirst
      refine ⟨source.length, hlt, Nat.le_refl _, ?_⟩
      rw [behind_length, stop_behind]
  | cons u rest =>
      obtain ⟨-, hlt, -, hitems⟩ := behind_of_mem h
      refine ⟨u.position.offset, offset_lt_of_split h, Nat.le_of_lt hlt, ?_⟩
      rw [← hitems, stop_behind, ← stop_behind source u.position.offset]

end Tokens

theorem Token.Kind.isWord_ofWord (word : String) : (ofWord word).isWord = true := by
  unfold ofWord
  split <;> rfl

namespace Scan

theorem eq_braceOpen_of_markOf {b : UInt8} (h : markOf? b = some .braceOpen) :
    b = '{'.toUInt8 := by
  revert h
  fun_cases markOf? b with
  | case3 _ _ hb => exact fun _ => hb
  | _ => exact nofun

/-- Only an opening brace makes the token of one: marks are told by their first
byte. -/
theorem eq_braceOpen_of_read {b : UInt8} {rest : List UInt8} {text : String}
    (h : (Chunk.read b rest).token = some (.mark .braceOpen, text)) : b = '{'.toUInt8 := by
  simp only [Chunk.read] at h
  split_ifs at h
  · cases h
  · cases h
  · cases h
  · simp only [Chunk.ofQuotation, Option.some.injEq, Prod.mk.injEq] at h
    split_ifs at h <;> cases h.1
  · cases h
  · have hword := Token.Kind.isWord_ofWord text
    simp only [Chunk.verbatim, Option.some.injEq, Prod.mk.injEq] at h
    rw [← h.2, h.1] at hword
    cases hword
  · split at h
    next m hm =>
      obtain ⟨rfl, -⟩ : m = .braceOpen ∧ m.spelling = text := by simpa using h
      exact eq_braceOpen_of_markOf hm
    next => cases h

theorem read_braceClose (rest : List UInt8) :
    Chunk.read '}'.toUInt8 rest = ⟨some (.mark .braceClose, Mark.braceClose.spelling), 0⟩ := by
  simp only [Chunk.read]
  rfl

end Scan

/-- An opening brace stands where its token does, so the body behind it can be
looked for there. -/
theorem Tokens.drop_of_brace {source : List UInt8} {m : Nat} {before after : List Token}
    {brace : Token} (h : (behind source m).items = before ++ brace :: after)
    (hkind : brace.kind = .mark .braceOpen) :
    source.drop brace.position.offset =
      '{'.toUInt8 :: source.drop (brace.position.offset + 1) := by
  obtain ⟨-, hlt, -, hitems⟩ := behind_of_mem h
  have hoffset := Position.offset_ofOffset (Nat.le_of_lt hlt)
  generalize ht : brace.position.offset = offset at hitems hoffset ⊢
  cases hdrop : source.drop offset with
  | nil => simp [behind, scan, hdrop, Scan.tokensFrom] at hitems
  | cons b rest =>
      have hrest : source.drop (offset + 1) = rest := by
        rw [← List.tail_drop, hdrop, List.tail_cons]
      simp only [behind, scan, hdrop, Scan.tokensFrom] at hitems
      split at hitems
      next kind text htoken =>
        obtain ⟨rfl, -⟩ := List.cons.inj hitems
        simp only at hkind
        rw [hkind] at htoken
        rw [Scan.eq_braceOpen_of_read htoken, hrest]
      next =>
        have hmem : brace ∈ Scan.tokensFrom ((Position.ofOffset source offset).next b)
            (Scan.Chunk.read b rest).more rest := by simp [hitems]
        have hlater := Scan.offset_le_of_mem hmem
        rw [Position.offset_next] at hlater
        omega

/-- A closing brace is a chunk of its own, so the tokens behind its token are
those behind it. -/
theorem Tokens.behind_close {source rest : List UInt8} {m : Nat} {before later : List Token}
    {close : Token} (h : (behind source m).items = before ++ close :: later)
    (hdrop : source.drop close.position.offset = '}'.toUInt8 :: rest) :
    (⟨later, (behind source m).stop⟩ : Tokens) = behind source (close.position.offset + 1) := by
  obtain ⟨-, -, -, hbehind⟩ := behind_of_mem h
  have hrest : source.drop (close.position.offset + 1) = rest := by
    rw [← List.tail_drop, hdrop, List.tail_cons]
  have hnext : (Position.ofOffset source close.position.offset).next '}'.toUInt8 =
      Position.ofOffset source (close.position.offset + 1) := by
    have hadvance := Position.advance_ofOffset source close.position.offset 1
    rw [hdrop] at hadvance
    exact hadvance
  simp only [behind, scan, hdrop, Scan.tokensFrom, Scan.read_braceClose] at hbehind
  obtain ⟨-, hafter⟩ := List.cons.inj hbehind
  rw [Tokens.mk.injEq]
  constructor
  · rw [← hafter, hnext, ← hrest]
    rfl
  · rw [stop_behind, stop_behind]

/-! ## Blocks -/

namespace Parser

variable {source : List UInt8}

theorem drop_of_extract {offset : Nat} {block : Block}
    (h : Block.extract source offset = .ok block) :
    ∃ rest, source.drop block.closeOffset = '}'.toUInt8 :: rest := by
  obtain ⟨inside, rest, hdrop, -, rfl⟩ := Block.extract_eq_ok_iff.mp h
  refine ⟨rest, ?_⟩
  rw [← List.drop_drop, hdrop, List.drop_left]

/-- Whichever tokens go on behind a body, they are those behind its closing
brace. -/
theorem skipBody_eq_behind {m offset : Nat} {block : Block} {before items : List Token}
    (hitems : (Tokens.behind source m).items = before ++ items)
    (hblock : Block.extract source offset = .ok block) :
    skipBody source block ⟨items, (Tokens.behind source m).stop⟩ =
      Tokens.behind source block.endOffset := by
  obtain ⟨rest, hdrop⟩ := drop_of_extract hblock
  unfold skipBody
  split
  · rfl
  next t later hlater =>
    split
    next hclose =>
      have hsplit : (Tokens.behind source m).items =
          (before ++ items.takeWhile (·.position.offset < block.closeOffset)) ++ t :: later := by
        rw [hitems, List.append_assoc, ← hlater, List.takeWhile_append_dropWhile]
      rw [← hclose.1] at hdrop
      rw [Block.endOffset, ← hclose.1]
      exact Tokens.behind_close hsplit hdrop
    next => rfl

theorem bodyBrace_eq_ok_iff {stop p : Position} {ts : List Token} :
    bodyBrace stop ts = .ok p ↔
      ∃ t rest, ts = t :: rest ∧ t.kind = .mark .braceOpen ∧ t.position = p := by
  cases ts with
  | nil => simp [bodyBrace]
  | cons t rest =>
      simp only [bodyBrace, isMark]
      split_ifs with h
      · simp [of_decide_eq_true h]
      · have hkind : t.kind ≠ .mark .braceOpen := by simpa using h
        simp [hkind]

/-- What reading an action takes: a signature, and a body that is found in the
source. -/
theorem action_eq_ok_iff {line : Nat} {ts later : Tokens} {a : Action} :
    action source line ts = .ok (a, later) ↔ ∃ items brace n block,
      signature ts.stop ts.items = .ok ((a.name, a.params), items) ∧
        bodyBrace ts.stop items = .ok brace ∧ Block.locate source brace.line = .ok n ∧
          Block.extract source brace.offset = .ok block ∧ a.body = block.text ∧ a.line = line ∧
            later = skipBody source block { ts with items } := by
  simp only [action, Except.bind_eq_ok_iff, Except.mapError_eq_ok_iff]
  constructor
  · rintro ⟨⟨⟨name, params⟩, items⟩, hsignature, brace, hbrace, n, hlocate, block, hblock, h⟩
    obtain ⟨rfl, rfl⟩ := Prod.mk.inj (Except.ok.inj h)
    exact ⟨items, brace, n, block, hsignature, hbrace, hlocate, hblock, rfl, rfl, rfl⟩
  · rintro ⟨items, brace, n, block, hsignature, hbrace, hlocate, hblock, hbody, hline, rfl⟩
    refine ⟨_, hsignature, brace, hbrace, n, hlocate, block, hblock, ?_⟩
    rw [← hbody, ← hline]
    rfl

end Parser

def Field.WellNamed (f : Field) : Prop := Text.IsWord f.name ∧ Text.IsWord f.typeName

def Schema.WellNamed (s : Schema) : Prop := Text.IsWord s.name ∧ ∀ f ∈ s.fields, f.WellNamed

def Step.WellNamed : Step → Prop
  | .auth => True
  | .validate schema => Text.IsWord schema
  | .action name => Text.IsWord name

def Route.WellNamed (r : Route) : Prop := ∀ s ∈ r.pipeline, s.WellNamed

def Action.WellNamed (a : Action) : Prop := Text.IsWord a.name ∧ ∀ p ∈ a.params, Text.IsWord p

/-- Whether the names that a tree takes from its source are words. -/
structure Tree.WellNamed (t : Tree) : Prop where
  schemas : ∀ s ∈ t.schemas, s.WellNamed
  actions : ∀ a ∈ t.actions, a.WellNamed
  routes : ∀ r ∈ t.routes, r.WellNamed

theorem Tree.WellNamed.append {t u : Tree} (ht : t.WellNamed) (hu : u.WellNamed) :
    (t ++ u).WellNamed where
  schemas := List.forall_mem_append.mpr ⟨ht.schemas, hu.schemas⟩
  actions := List.forall_mem_append.mpr ⟨ht.actions, hu.actions⟩
  routes := List.forall_mem_append.mpr ⟨ht.routes, hu.routes⟩

theorem Tree.WellNamed.empty : ({} : Tree).WellNamed := ⟨by simp, by simp, by simp⟩

namespace Parser

variable {source : List UInt8}

variable {t brace : Token} {later : Tokens} {tree : Tree} {items rest used : List Token}
  {a : Action} {c m : Nat}

/-- A block that is no action uses up some tokens, from which it is read
whatever follows them and in whatever source they stand. -/
theorem block_uses {ts : Tokens} (hkind : t.kind ≠ .keyword .action)
    (h : block source t ts = .ok (tree, later)) :
    tree.actions = [] ∧ ∃ used, ts.items = used ++ later.items ∧ later.stop = ts.stop ∧
      ∀ source' rest stop, block source' t ⟨used ++ rest, stop⟩ = .ok (tree, ⟨rest, stop⟩) := by
  by_cases hopens : OpensBlock t
  · obtain ⟨used, hitems, hstop, hblock⟩ := isBlock_of_block hopens h
    refine ⟨?_, used, hitems, hstop, fun source' => block_of_isBlock source' hblock⟩
    cases hblock <;> rfl
  · simp only [OpensBlock, not_or] at hopens
    obtain ⟨hdata, hroute, hmigration, himport⟩ := hopens
    simp only [block] at h ⊢
    split at h
    case h_7 =>
      obtain ⟨rfl, rfl⟩ := Prod.mk.inj (Except.ok.inj h)
      simp_all
    all_goals simp_all

/-- How the tokens of an action are used up: a keyword, a signature that is read
whatever follows it, and a brace with a body behind it. -/
structure ActionUses (source : List UInt8) (t : Token) (a : Action) (items used : List Token)
    (brace : Token) (rest : List Token) (closeOffset : Nat) : Prop where
  keyword : t.kind = .keyword .action
  line : a.line = t.position.line
  split : items = used ++ brace :: rest
  kind : brace.kind = .mark .braceOpen
  extract : Block.extract source brace.position.offset = .ok ⟨a.body, closeOffset⟩
  sound : (∀ u ∈ used, u.Sound) → a.WellNamed
  header : Taken signature used (a.name, a.params)

theorem signature_uses {stop : Position} (hkind : t.kind = .keyword .action)
    (hline : a.line = t.position.line)
    (hsignature : signature stop items = .ok ((a.name, a.params), brace :: rest))
    (hopen : brace.kind = .mark .braceOpen)
    (hextract : Block.extract source brace.position.offset = .ok ⟨a.body, c⟩) :
    ∃ used, ActionUses source t a items used brace rest c := by
  obtain ⟨used, hsplit, htaken, hwords⟩ := signature_taken hsignature
  exact ⟨used, hkind, hline, hsplit, hopen, hextract, hwords, htaken⟩

/-- An action uses up its signature and its body, and goes on behind the brace
that closes the body. -/
theorem action_uses {stop : Position} (hkind : t.kind = .keyword .action)
    (h : block source t ⟨items, stop⟩ = .ok (tree, later)) :
    ∃ a used brace rest closeOffset, tree = ofAction a ∧
      later = skipBody source ⟨a.body, closeOffset⟩ ⟨brace :: rest, stop⟩ ∧
        ActionUses source t a items used brace rest closeOffset := by
  simp only [block, hkind] at h
  obtain ⟨⟨a, later'⟩, haction, hmap⟩ := Except.map_eq_ok_iff.mp h
  obtain ⟨rfl, rfl⟩ := Prod.mk.inj hmap
  obtain ⟨items', brace, n, body, hsignature, hbrace, -, hextract, hbody, hline, rfl⟩ :=
    action_eq_ok_iff.mp haction
  obtain ⟨t', rest, rfl, hopen, rfl⟩ := bodyBrace_eq_ok_iff.mp hbrace
  obtain ⟨text, c⟩ := body
  obtain rfl : a.body = text := hbody
  obtain ⟨used, huses⟩ := signature_uses hkind hline hsignature hopen hextract
  exact ⟨a, used, t', rest, _, rfl, rfl, huses⟩

/-- The brace that closes a body stands behind the one that opens it, and inside
of the source. -/
theorem closeOffset_lt {offset : Nat} {body : Block}
    (h : Block.extract source offset = .ok body) :
    offset < body.closeOffset ∧ body.closeOffset < source.length := by
  obtain ⟨inside, rest, hdrop, -, rfl⟩ := Block.extract_eq_ok_iff.mp h
  have hlength := congrArg List.length hdrop
  simp only [List.length_drop, List.length_append, List.length_cons] at hlength
  simp only
  omega

theorem ActionUses.items_eq {all : List Token}
    (huses : ActionUses source t a items used brace rest c)
    (hitems : all = t :: items) : all = t :: used ++ brace :: rest := by
  rw [hitems, huses.split, List.cons_append]

theorem ActionUses.skipBody_eq (huses : ActionUses source t a items used brace rest c)
    (hitems : (Tokens.behind source m).items = t :: items) :
    skipBody source ⟨a.body, c⟩ ⟨brace :: rest, (Tokens.behind source m).stop⟩ =
      Tokens.behind source (c + 1) :=
  skipBody_eq_behind (huses.items_eq hitems) huses.extract

theorem exists_behind_block (hitems : (Tokens.behind source m).items = t :: items)
    (hsplit : items = used ++ later.items)
    (hstop : later.stop = (Tokens.behind source m).stop) :
    ∃ n, t.position.offset < n ∧ n ≤ source.length ∧ later = Tokens.behind source n := by
  rw [hsplit, ← List.cons_append] at hitems
  obtain ⟨n, hlt, hn, hbehind⟩ := Tokens.exists_behind hitems
  exact ⟨n, hlt, hn, by rw [← hbehind, ← hstop]⟩

/-- Behind every block, reading goes on from some offset, which lies further
on. -/
theorem block_behind (hitems : (Tokens.behind source m).items = t :: items)
    (h : block source t ⟨items, (Tokens.behind source m).stop⟩ = .ok (tree, later)) :
    ∃ n, m < n ∧ n ≤ source.length ∧ later = Tokens.behind source n := by
  have hfirst : (Tokens.behind source m).items = [] ++ t :: items := hitems
  obtain ⟨hle, -⟩ := Tokens.behind_of_mem hfirst
  by_cases hkind : t.kind = .keyword .action
  · obtain ⟨a, used, brace, rest, c, -, rfl, huses⟩ := action_uses hkind h
    obtain ⟨hbrace, -⟩ := Tokens.behind_of_mem (huses.items_eq hitems)
    obtain ⟨hlt, hclose⟩ := closeOffset_lt huses.extract
    simp only at hlt hclose
    exact ⟨c + 1, by omega, hclose, huses.skipBody_eq hitems⟩
  · obtain ⟨-, used, hsplit, hstop, -⟩ := block_uses hkind h
    obtain ⟨n, hlt, hn, rfl⟩ := exists_behind_block hitems hsplit hstop
    exact ⟨n, by omega, hn, rfl⟩

end Parser

end BlockLang
