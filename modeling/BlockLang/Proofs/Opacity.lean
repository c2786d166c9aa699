import BlockLang.Proofs.Encoding
import BlockLang.Proofs.Locality

/-! # Bodies are opaque

Whatever stands between the braces of an action, the rest of the source reads the same: a body
can hide no declaration behind it, add none, and change none but its line.
-/

namespace BlockLang

def Text.newlines (s : String) : Nat := (Text.bytes s).count '\n'.toUInt8

/-- Whether a text can stand between braces: put there, the brace behind it
closes the one before it. -/
def Text.Enclosable (s : String) : Prop :=
  ∃ text, Block.extract (Text.bytes (r"{" ++ s ++ r"}")) 0 =
    .ok ⟨text, (Text.bytes s).length + 1⟩

def Tree.shift (count : Nat) (t : Tree) : Tree := t.mapLines (· + count)

/-- What can stand between braces is told by bytes alone: quotes, comments and
braces in it are all closed within it. -/
theorem Text.enclosable_iff {s : String} : Text.Enclosable s ↔ Body.Whole (Text.bytes s) := by
  have hdrop : (Text.bytes (r"{" ++ s ++ r"}")).drop (0 + 1) =
      Text.bytes s ++ ['}'.toUInt8] := by
    rw [Text.bytes_append, Text.bytes_append]
    rfl
  simp only [Text.Enclosable, Block.extract_eq_ok_iff, hdrop]
  constructor
  · rintro ⟨text, inside, rest, hsplit, hwhole, hblock⟩
    have hlength := (Block.mk.inj hblock).2
    obtain ⟨rfl, -⟩ := List.append_inj hsplit (by omega)
    exact hwhole
  · intro hwhole
    exact ⟨_, Text.bytes s, [], rfl, hwhole, by rw [Nat.zero_add, Nat.add_comm]⟩

namespace Parser

/-- The action `a` is read after the declarations `before`, and its body stands
between the brace at offset `o` and the brace at offset `c`. -/
structure BodyAt (source : List UInt8) (before : Tree) (a : Action) (o c : Nat) : Prop where
  header : ∃ ts t items later brace, Reads source (Tokens.ofSource source) before ts ∧
    ts.items = t :: items ∧ t.kind = .keyword .action ∧ t.position.line = a.line ∧
      signature ts.stop items = .ok ((a.name, a.params), later) ∧
        bodyBrace ts.stop later = .ok brace ∧ brace.offset = o
  body : Block.extract source o = .ok ⟨a.body, c⟩

theorem Reads.unique {source : List UInt8} {ts last last' : Tokens} {tree tree' : Tree}
    (h : Reads source ts tree last) (hlast : last.items = []) (h' : Reads source ts tree' last')
    (hlast' : last'.items = []) : tree = tree' := by
  obtain ⟨more, rfl, hmore⟩ := h.rest h' hlast'
  cases hmore with
  | done => rw [Tree.append_empty]
  | step hitems => rw [hlast] at hitems; cases hitems

variable {source : List UInt8} {before tree : Tree} {a : Action} {o c : Nat}

/-- What a text declares by itself is read wherever the text stands last,
further down by the lines before it. -/
theorem exists_reads_of_drop {k : Nat} {rest : Tree} (hk : k ≤ source.length)
    (h : Tree.ofBytes (source.drop k) = .ok rest) :
    ∃ last, Reads source (Tokens.behind source k)
      (rest.shift ((source.take k).count '\n'.toUInt8)) last ∧ last.items = [] := by
  obtain ⟨last, hreads, hlast⟩ := ofBytes_eq_ok_iff.mp h
  have hdrop : (source.drop k).drop 0 = source.drop k := rfl
  have hline : movedLine (source.drop k) 0 source k = (· + (source.take k).count '\n'.toUInt8) := by
    funext line
    simp only [movedLine, Position.line_ofOffset, List.take_zero, List.count_nil]
    omega
  have hmoved := Reads.moved hdrop (Nat.zero_le _) hk hreads hlast
  rwa [hline] at hmoved

/-- What is read from some offset up to the end of a source is what the text
from there on declares by itself. -/
theorem Reads.exists_shift {k : Nat} {last : Tokens} (hk : k ≤ source.length)
    (h : Reads source (Tokens.behind source k) tree last) (hlast : last.items = []) :
    ∃ rest, Tree.ofBytes (source.drop k) = .ok rest ∧
      tree = rest.shift ((source.take k).count '\n'.toUInt8) := by
  have hdrop : source.drop k = (source.drop k).drop 0 := rfl
  have hrest := ofBytes_eq_ok_iff.mpr (Reads.moved hdrop hk (Nat.zero_le _) h hlast)
  obtain ⟨last', hreads, hlast'⟩ := exists_reads_of_drop hk hrest
  exact ⟨_, hrest, h.unique hlast hreads hlast'⟩

theorem BodyAt.reads (h : BodyAt source before a o c) :
    Reads source (Tokens.ofSource source) (before ++ ofAction a)
      (Tokens.behind source (c + 1)) := by
  obtain ⟨ts, t, items, later, p, hreads, hitems, hkind, hline, hsignature, hp, rfl⟩ := h.header
  obtain ⟨brace, rest, rfl, hopen, rfl⟩ := bodyBrace_eq_ok_iff.mp hp
  rw [← Tokens.behind_zero] at hreads ⊢
  obtain ⟨n, rfl⟩ := hreads.exists_behind
  obtain ⟨used, huses⟩ := signature_uses hkind hline.symm hsignature hopen h.body
  have hstep := Reads.step hitems (huses.block_eq hitems) (.done _)
  rw [Tree.append_empty] at hstep
  exact hreads.append hstep

/-- What stands behind a body declares the same as by itself, so a source with a
body falls into three parts that do not know of each other. -/
theorem BodyAt.ofBytes_eq_ok_iff (h : BodyAt source before a o c) :
    Tree.ofBytes source = .ok tree ↔ ∃ rest, Tree.ofBytes (source.drop (c + 1)) = .ok rest ∧
      tree = before ++ ofAction a ++ rest.shift ((source.take (c + 1)).count '\n'.toUInt8) := by
  obtain ⟨-, hc⟩ := closeOffset_lt h.body
  rw [Parser.ofBytes_eq_ok_iff]
  constructor
  · rintro ⟨last, hreads, hlast⟩
    obtain ⟨more, rfl, hmore⟩ := h.reads.rest hreads hlast
    obtain ⟨rest, hrest, rfl⟩ := hmore.exists_shift hc hlast
    exact ⟨rest, hrest, rfl⟩
  · rintro ⟨rest, hrest, rfl⟩
    obtain ⟨last, hreads, hlast⟩ := exists_reads_of_drop hc hrest
    exact ⟨last, h.reads.append hreads, hlast⟩

/-- An action is read alike in a source that is the same up to its opening
brace, with the body that stands there. -/
theorem BodyAt.of_take_eq {source' : List UInt8} {text : String} {c' : Nat}
    (h : BodyAt source before a o c) (hagree : source.take (o + 1) = source'.take (o + 1))
    (hbody : Block.extract source' o = .ok ⟨text, c'⟩) :
    BodyAt source' before { a with body := text } o c' := by
  obtain ⟨ts, t, items, later, p, hreads, hitems, hkind, hline, hsignature, hp, rfl⟩ := h.header
  obtain ⟨brace, rest, rfl, hopen, rfl⟩ := bodyBrace_eq_ok_iff.mp hp
  rw [← Tokens.behind_zero] at hreads
  obtain ⟨n, rfl⟩ := hreads.exists_behind
  obtain ⟨used, huses⟩ := signature_uses hkind hline.symm hsignature hopen h.body
  have hsplit := huses.items_eq hitems
  have hk : brace.position.offset < brace.position.offset + 1 := Nat.lt_succ_self _
  obtain ⟨rest', hsplit'⟩ := Tokens.behind_brace_local hagree hsplit hopen hk
  have hlt := Tokens.offset_lt_of_split hsplit
  refine ⟨⟨Tokens.behind source' n, t, used ++ brace :: rest', brace :: rest', brace.position, ?_,
    hsplit', hkind, hline, ?_, ?_, rfl⟩, hbody⟩
  · exact hreads.local (.of_take hagree) hsplit (by omega)
  · exact huses.header _ _
  · exact bodyBrace_eq_ok_iff.mpr ⟨brace, rest', rfl, hopen, rfl⟩

/-- A body can be replaced by anything that stands between braces as a whole. -/
theorem BodyAt.replace {start inside tail bs : List UInt8} (hwhole : Body.Whole bs)
    (h : BodyAt (start ++ '{'.toUInt8 :: (inside ++ '}'.toUInt8 :: tail)) before a
      start.length c) :
    BodyAt (start ++ '{'.toUInt8 :: (bs ++ '}'.toUInt8 :: tail)) before
      { a with body := Text.trim (Text.ofBytes bs) } start.length
        (start.length + 1 + bs.length) := by
  apply h.of_take_eq
  · rw [List.take_length_add_append, List.take_length_add_append]
    rfl
  · refine Block.extract_eq_ok_iff.mpr ⟨bs, tail, ?_, hwhole, rfl⟩
    rw [← List.drop_drop, List.drop_left]
    rfl

/-- Every action of a tree has its body in the source, between two braces, with
the actions before it read before it. -/
theorem exists_bodyAt {as₁ as₂ : List Action} (h : Tree.ofBytes source = .ok tree)
    (hactions : tree.actions = as₁ ++ a :: as₂) :
    ∃ before o c, before.actions = as₁ ∧ BodyAt source before a o c := by
  obtain ⟨last, hreads, -⟩ := Parser.ofBytes_eq_ok_iff.mp h
  obtain ⟨before, mid, t, items, later, hbefore, hreads, hitems, hkind, hblock⟩ :=
    hreads.exists_action hactions
  simp only [block, hkind] at hblock
  obtain ⟨⟨a', later'⟩, haction, hmap⟩ := Except.map_eq_ok_iff.mp hblock
  obtain ⟨hofAction, -⟩ := Prod.mk.inj hmap
  obtain rfl : a' = a := by simpa [ofAction] using hofAction
  obtain ⟨items', brace, n, body, hsignature, hbrace, -, hextract, hbody, hline, -⟩ :=
    action_eq_ok_iff.mp haction
  refine ⟨before, brace.offset, body.closeOffset, hbefore,
    ⟨mid, t, items, items', brace, hreads, hitems, hkind, hline.symm, hsignature, hbrace, rfl⟩, ?_⟩
  rw [hextract, hbody]

/-- The braces of a body stand in the source, and what is between them is the
text of the action but for blanks at its ends. -/
theorem BodyAt.exists_split (h : BodyAt source before a o c) :
    ∃ start inside tail, source = start ++ '{'.toUInt8 :: (inside ++ '}'.toUInt8 :: tail) ∧
      start.length = o ∧ start.length + 1 + inside.length = c ∧
        a.body = Text.trim (Text.ofBytes inside) := by
  obtain ⟨ts, t, items, later, p, hreads, hitems, hkind, -, hsignature, hp, rfl⟩ := h.header
  obtain ⟨brace, rest, rfl, hopen, rfl⟩ := bodyBrace_eq_ok_iff.mp hp
  rw [← Tokens.behind_zero] at hreads
  obtain ⟨n, rfl⟩ := hreads.exists_behind
  obtain ⟨used, rfl, -⟩ := signature_taken hsignature
  have hsplit : (Tokens.behind source n).items = (t :: used) ++ brace :: rest := hitems
  obtain ⟨-, hlt, -⟩ := Tokens.behind_of_mem hsplit
  obtain ⟨inside, tail, hdrop, -, hblock⟩ := Block.extract_eq_ok_iff.mp h.body
  obtain ⟨hbody, rfl⟩ := Block.mk.inj hblock
  have hlength := List.length_take_of_le (Nat.le_of_lt hlt)
  refine ⟨source.take brace.position.offset, inside, tail, ?_, hlength, by rw [hlength], hbody⟩
  rw [← hdrop, ← Tokens.drop_of_brace hsplit hopen, List.take_append_drop]

theorem split_behind_body (start inside tail : List UInt8) :
    let source := start ++ '{'.toUInt8 :: (inside ++ '}'.toUInt8 :: tail)
    let close := start.length + 1 + inside.length
    source.drop (close + 1) = tail ∧ (source.take (close + 1)).count '\n'.toUInt8 =
      start.count '\n'.toUInt8 + inside.count '\n'.toUInt8 := by
  intro source close
  have hsource : source = (start ++ '{'.toUInt8 :: (inside ++ ['}'.toUInt8])) ++ tail := by
    simp [source]
  have hlength : close + 1 = (start ++ '{'.toUInt8 :: (inside ++ ['}'.toUInt8])).length := by
    simp only [List.length_append, List.length_cons, List.length_nil, close]
    omega
  rw [hsource, hlength, List.drop_left, List.take_left, List.count_append,
    List.count_cons_of_ne (by decide), List.count_append, List.count_singleton]
  exact ⟨rfl, rfl⟩

/-- Action bodies are opaque. Every action `a` of a source that parses has its
body between two braces, at offsets `o` and `c`. Whatever such braces enclose,
the declarations behind them are those that the text behind them makes by
itself, further down by the lines before it; and whatever can stand between
braces can be put there, with no effect but on the body of `a` and on those
lines. -/
theorem action_body_replaced {source : String} {tree : Tree}
    (h : Tree.ofSource source = .ok tree) :
    (∀ as₁ a as₂, tree.actions = as₁ ++ a :: as₂ →
      ∃ before o c, before.actions = as₁ ∧ BodyAt (Text.bytes source) before a o c) ∧
    ∀ before a o c, BodyAt (Text.bytes source) before a o c → ∃ s₁ old s₂ rest,
      source = s₁ ++ r"{" ++ old ++ r"}" ++ s₂ ∧
      (Text.bytes s₁).length = o ∧ (Text.bytes (s₁ ++ r"{" ++ old)).length = c ∧
      a.body = Text.trim old ∧
      Tree.ofSource s₂ = .ok rest ∧
      tree = before ++ ofAction a ++ rest.shift (Text.newlines s₁ + Text.newlines old) ∧
      ∀ b, Text.Enclosable b →
        Tree.ofSource (s₁ ++ r"{" ++ b ++ r"}" ++ s₂) =
          .ok (before ++ ofAction { a with body := Text.trim b } ++
            rest.shift (Text.newlines s₁ + Text.newlines b)) := by
  refine ⟨fun as₁ a as₂ hactions => exists_bodyAt h hactions, ?_⟩
  intro before a o c hbodyAt
  obtain ⟨start, inside, tail, hsource, rfl, rfl, hbody⟩ := hbodyAt.exists_split
  have hopen : Text.bytes r"{" = ['{'.toUInt8] := rfl
  have hclose : Text.bytes r"}" = ['}'.toUInt8] := rfl
  obtain ⟨s₁, r, rfl, rfl, hr⟩ := Text.exists_split_of_bytes (by decide) hopen hsource
  obtain ⟨old, s₂, rfl, rfl, rfl⟩ := Text.exists_split_of_bytes (by decide) hclose hr
  rw [Text.ofBytes_bytes] at hbody
  have hbytes : ∀ b, Text.bytes (s₁ ++ r"{" ++ b ++ r"}" ++ s₂) =
      Text.bytes s₁ ++ '{'.toUInt8 :: (Text.bytes b ++ '}'.toUInt8 :: Text.bytes s₂) := by
    intro b
    simp [Text.bytes_append, hopen, hclose]
  have hassoc : s₁ ++ r"{" ++ (old ++ r"}" ++ s₂) = s₁ ++ r"{" ++ old ++ r"}" ++ s₂ := by
    simp only [String.append_assoc]
  rw [hassoc] at h hbodyAt ⊢
  rw [Tree.ofSource, hbytes] at h
  rw [hbytes] at hbodyAt
  -- What stands behind the body is read on its own, its lines counted from the body's end.
  obtain ⟨hdrop, hcount⟩ := split_behind_body (Text.bytes s₁) (Text.bytes old) (Text.bytes s₂)
  obtain ⟨rest, hrest, htree⟩ := hbodyAt.ofBytes_eq_ok_iff.mp h
  rw [hdrop] at hrest
  rw [hcount] at htree
  refine ⟨s₁, old, s₂, rest, rfl, rfl, ?_, hbody, hrest, htree, ?_⟩
  · simp only [Text.bytes_append, hopen, List.length_append, List.length_singleton]
  · intro b hb
    have hreplaced := hbodyAt.replace (Text.enclosable_iff.mp hb)
    obtain ⟨hdrop', hcount'⟩ := split_behind_body (Text.bytes s₁) (Text.bytes b) (Text.bytes s₂)
    rw [Tree.ofSource, hbytes]
    refine hreplaced.ofBytes_eq_ok_iff.mpr ⟨rest, ?_, ?_⟩
    · rw [hdrop', hrest]
    · rw [hcount', Text.ofBytes_bytes]
      rfl

/-- The second of two bodies, replaced by a brace between quotes and a newline.
The import behind it stays, one line further down. -/
theorem action_body_replaced_quoted_brace :
    ∃ before s₁ old s₂ rest, before.actions = [⟨"f", ["x"], r"'}'", 1⟩] ∧
      r#"do f(x) {'}'} do g() { 1 } import "a""# =
        s₁ ++ r"{" ++ old ++ r"}" ++ s₂ ∧
      Text.trim old = "1" ∧ Tree.ofSource s₂ = .ok rest ∧
      Tree.ofSource (s₁ ++ r"{" ++ "\"\x7d\"\n" ++ r"}" ++ s₂) =
        .ok (before ++ ofAction ⟨"g", [], r#""}""#, 1⟩ ++ rest.shift (Text.newlines s₁ + 1)) := by
  have h : Tree.ofSource r#"do f(x) {'}'} do g() { 1 } import "a""# =
      .ok { actions := [⟨"f", ["x"], r"'}'", 1⟩, ⟨"g", [], "1", 1⟩], imports := [⟨"a", 1⟩] } :=
    rfl
  have henclosable : Text.Enclosable "\"\x7d\"\n" := ⟨_, rfl⟩
  obtain ⟨before, o, c, hbefore, hbodyAt⟩ :=
    (action_body_replaced h).1 [⟨"f", ["x"], r"'}'", 1⟩] ⟨"g", [], "1", 1⟩ [] rfl
  obtain ⟨s₁, old, s₂, rest, hsource, -, -, hbody, hrest, -, hreplace⟩ :=
    (action_body_replaced h).2 before _ o c hbodyAt
  exact ⟨before, s₁, old, s₂, rest, hbefore, hsource, hbody.symm, hrest, hreplace _ henclosable⟩

end Parser

end BlockLang
