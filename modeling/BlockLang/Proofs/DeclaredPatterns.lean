import BlockLang.Pattern
import BlockLang.Proofs.BlockRecognition
import BlockLang.Proofs.Lexemes
import BlockLang.Proofs.Locality
import BlockLang.Proofs.Numerals
import BlockLang.Proofs.ParsedSchemas
import BlockLang.Proofs.Passages
import BlockLang.Validation.Check

/-! # Declared patterns

A pattern is declared as a string among the arguments of a field. The string may hold any text, and
a text that is no number reaches the check of the field unchanged. A text that reads as a number
becomes one on the way, so that the check has the plain text of that number for its pattern.
-/

namespace BlockLang

/-! ## Strings of a source -/

namespace Scan

def writeChar (c : Char) : List Char :=
  if c = '"' then ['\\', '"']
  else if c = '\\' then ['\\', '\\']
  else if c = '\n' then ['\\', 'n']
  else [c]

/-- A text as a string of a source. -/
def writeString (text : String) : String :=
  String.ofList ('"' :: (text.toList.flatMap writeChar ++ ['"']))

theorem interior_writeChar (cs : List Char) : Interior (cs.flatMap writeChar) cs := by
  induction cs with
  | nil => exact .nil
  | cons c cs ih =>
    rw [List.flatMap_cons]
    unfold writeChar
    split_ifs with hquote hbackslash hnewline
    · rw [hquote]
      exact .escape (by decide) ih
    · rw [hbackslash]
      exact .escape (by decide) ih
    · rw [hnewline]
      exact .escape (by decide) ih
    · exact .plain hquote hnewline hbackslash ih

theorem bytes_writeString (text : String) :
    Text.bytes (writeString text) =
      '"'.toUInt8 :: ((text.toList.flatMap writeChar).flatMap String.utf8EncodeChar ++
        ['"'.toUInt8]) := by
  rw [writeString, Text.bytes_ofList, List.flatMap_cons, List.flatMap_append]
  rfl

/-- A written string is read as its text, whatever follows it. -/
theorem tokensFrom_writeString (p : Position) (text rest : String) :
    tokensFrom p 0 (Text.bytes (writeString text) ++ Text.bytes rest) =
      ⟨.string, text, p⟩ ::
        tokensFrom (p.advance (Text.bytes (writeString text))) 0 (Text.bytes rest) := by
  generalize hraw : (text.toList.flatMap writeChar).flatMap String.utf8EncodeChar = raw
  -- The escapes written are read back as the text, up to the closing quotation mark.
  have hquotation : quotation (raw ++ '"'.toUInt8 :: Text.bytes rest) =
      ⟨Text.bytes text, raw.length + 1, true⟩ := by
    have hending := quotation_ending (.closed rest.toList)
    rw [List.flatMap_append, ← Text.bytes_eq_flatMap] at hending
    rw [← hraw, quotation_interior (interior_writeChar _)]
    change ((quotation (['"'].flatMap String.utf8EncodeChar ++ Text.bytes rest)).append _ _) = _
    rw [hending, Quotation.append, List.append_nil, ← Text.bytes_eq_flatMap]
    rfl
  have hread : Chunk.read '"'.toUInt8 (raw ++ '"'.toUInt8 :: Text.bytes rest) =
      ⟨some (.string, text), raw.length + 1⟩ := by
    have hchunk : Chunk.read '"'.toUInt8 (raw ++ '"'.toUInt8 :: Text.bytes rest) =
        .ofQuotation (quotation (raw ++ '"'.toUInt8 :: Text.bytes rest)) := rfl
    rw [hchunk, hquotation, Chunk.ofQuotation, Text.ofBytes_bytes]
    rfl
  have hsplit : '"'.toUInt8 :: (raw ++ '"'.toUInt8 :: Text.bytes rest) =
      ('"'.toUInt8 :: (raw ++ ['"'.toUInt8])) ++ Text.bytes rest := by
    simp
  have hlength : ('"'.toUInt8 :: (raw ++ ['"'.toUInt8])).length =
      (Chunk.read '"'.toUInt8 (raw ++ '"'.toUInt8 :: Text.bytes rest)).more + 1 := by
    rw [hread]
    simp
  have hchunk := tokensFrom_chunk (p := p) hsplit hlength
  rw [hread, hsplit] at hchunk
  rw [bytes_writeString, hraw]
  exact hchunk

end Scan

theorem Tokens.behind_eq_cons_of_writeString (start : List UInt8) (text rest : String) :
    let source := start ++ (Text.bytes (Scan.writeString text) ++ Text.bytes rest)
    (behind source start.length).items =
      ⟨.string, text, Position.ofOffset source start.length⟩ ::
        Scan.tokensFrom ((Position.ofOffset source start.length).advance
          (Text.bytes (Scan.writeString text))) 0 (Text.bytes rest) := by
  simp only [behind, scan]
  rw [List.drop_left, Scan.tokensFrom_writeString]

/-- A string may stand for another one, with anything behind it, and the tokens
before it stay as they are. -/
theorem Tokens.behind_writeString {start rest : List UInt8} {before after : List Token} {t : Token}
    (h : (behind (start ++ '"'.toUInt8 :: rest) 0).items = before ++ t :: after)
    (ht : t.position.offset = start.length) (text rest' : String) :
    ∃ p q, (behind (start ++ (Text.bytes (Scan.writeString text) ++ Text.bytes rest')) 0).items =
      before ++ ⟨.string, text, p⟩ :: Scan.tokensFrom q 0 (Text.bytes rest') := by
  obtain ⟨tail, htail⟩ : ∃ tail, Text.bytes (Scan.writeString text) ++ Text.bytes rest' =
      '"'.toUInt8 :: tail := by
    rw [Scan.bytes_writeString, List.cons_append]
    exact ⟨_, rfl⟩
  have hlike := behind_endsLike (.refl '"'.toUInt8) h ht tail
  rw [← htail, ht, behind_eq_cons_of_writeString] at hlike
  exact ⟨_, _, hlike⟩

/-! ## Numbers as patterns -/

namespace Pattern

def isNumeralChar (c : Char) : Bool := c.isDigit || c == '.' || c == '-'

def numeralItem (c : Char) : Syntax := if c = '.' then .dot else .char c

/-- A character of a number is none of those that have a meaning in a pattern,
but for the point. -/
theorem ne_of_isNumeralChar {c d : Char} (hc : isNumeralChar c = true)
    (hd : isNumeralChar d = false) : c ≠ d := by
  rintro rfl
  rw [hc] at hd
  cases hd

theorem portabilityFault?_numeral {cs : List Char} (h : ∀ c ∈ cs, isNumeralChar c = true) :
    portabilityFault? false cs = none := by
  induction cs with
  | nil => rfl
  | cons c cs ih =>
    obtain ⟨hc, hcs⟩ := List.forall_mem_cons.mp h
    have hescape := ne_of_isNumeralChar (d := '\\') hc (by decide)
    have hopen := ne_of_isNumeralChar (d := '[') hc (by decide)
    have hclose := ne_of_isNumeralChar (d := ']') hc (by decide)
    have hgroup := ne_of_isNumeralChar (d := '(') hc (by decide)
    rw [portabilityFault?.eq_def]
    split <;> simp_all

theorem splitFlags_numeral {cs : List Char} (h : ∀ c ∈ cs, isNumeralChar c = true) :
    splitFlags cs = ([], cs) := by
  unfold splitFlags
  split
  next rest =>
    have hparen := h '(' List.mem_cons_self
    cases hparen
  next => rfl

namespace Reader

/-- Reading a number as a pattern takes its characters one by one. -/
theorem pattern_numeral {p : Partial} (hverbose : p.verbose = false) {cs : List Char}
    (h : ∀ c ∈ cs, isNumeralChar c = true) :
    pattern (cs.length + 1) p cs =
      some (p.names,
        Partial.finish { p with items := (cs.map numeralItem).reverse ++ p.items }, []) := by
  induction cs generalizing p with
  | nil =>
    simp only [pattern, skip, hverbose]
    rfl
  | cons c cs ih =>
    obtain ⟨hc, hcs⟩ := List.forall_mem_cons.mp h
    have hne : ∀ d, isNumeralChar d = false → c ≠ d := fun d hd => ne_of_isNumeralChar hc hd
    have hread : pattern (cs.length + 1 + 1) p (c :: cs) =
        pattern (cs.length + 1) (p.push (numeralItem c)) cs := by
      rw [pattern]
      simp only [skip, hverbose, Bool.false_eq_true, if_false]
      split
      case h_10 => rw [numeralItem, if_pos rfl]
      case h_13 => rw [numeralItem, if_neg (by assumption)]
      all_goals exact absurd rfl (hne _ (by decide))
    rw [List.length_cons, hread, ih (by exact hverbose) hcs, List.map_cons, List.reverse_cons,
      List.append_assoc]
    rfl

end Reader

theorem maxDepth_numeral (cs : List Char) : Syntax.maxDepth (cs.map numeralItem) = 0 := by
  induction cs with
  | nil => rfl
  | cons c cs ih =>
    have hitem : (numeralItem c).depth = 0 := by
      unfold numeralItem
      split <;> rfl
    rw [List.map_cons, Syntax.maxDepth, hitem, ih]
    rfl

theorem numeralItem_expr? (c : Char) :
    ∃ chars, (numeralItem c).expr? {} = some (.set chars, {}) ∧
      (setSize chars).forward ≤ 1024 ∧ (setSize chars).backward ≤ 1024 := by
  unfold numeralItem
  split
  next => exact ⟨Options.dot {}, rfl, by decide +kernel, by decide +kernel⟩
  next =>
    have hsize : stateSize * Text.utf8Size c.toNat ≤ 1024 := by
      have hfour : Text.utf8Size c.toNat ≤ 4 := by
        unfold Text.utf8Size
        split_ifs <;> decide
      rw [stateSize]
      omega
    refine ⟨.singleton c.toNat, rfl, ?_⟩
    rw [CharSet.singleton, setSize]
    simpa [Size.both] using hsize

/-- The items of a number are sets of characters in a row, and small ones, so
that the size of the pattern is bounded by its length. -/
theorem sequence?_numeral (cs : List Char) :
    ∃ e, Syntax.sequence? {} (cs.map numeralItem) = some (e, {}) ∧
      e.size.forward ≤ 1024 * cs.length ∧ e.size.backward ≤ 1024 * cs.length := by
  induction cs with
  | nil => exact ⟨.empty, rfl, Nat.le_refl _, Nat.le_refl _⟩
  | cons c cs ih =>
    obtain ⟨chars, hchars, hforward, hbackward⟩ := numeralItem_expr? c
    obtain ⟨e, he, heforward, hebackward⟩ := ih
    cases cs with
    | nil => exact ⟨.set chars, hchars, hforward, hbackward⟩
    | cons d ds =>
      have hsize : (Expr.seq (.set chars) e).size = ⟨(setSize chars).forward + e.size.forward,
        (setSize chars).backward + e.size.backward⟩ := rfl
      refine ⟨.seq (.set chars) e, ?_, ?_, ?_⟩
      · rw [List.map_cons] at he
        simp [Syntax.sequence?, hchars, he]
      · rw [hsize, List.length_cons]
        simp only
        omega
      · rw [hsize, List.length_cons]
        simp only
        omega

theorem Reader.sequenceOf_reverse (items : List Syntax) :
    sequenceOf items.reverse =
      match items with
      | [] => .empty
      | [item] => item
      | items => .sequence items := by
  match items with
  | [] | [_] => rfl
  | first :: second :: rest =>
    have hreverse : (first :: second :: rest).reverse.reverse = first :: second :: rest :=
      List.reverse_reverse _
    have hlength : (first :: second :: rest).reverse.length = rest.length + 2 :=
      List.length_reverse
    match (first :: second :: rest).reverse, hlength, hreverse with
    | _ :: _ :: _, _, hreverse => exact congrArg Syntax.sequence hreverse

theorem Reader.sequenceOf_expr? (o : Options) (items : List Syntax) :
    (sequenceOf items.reverse).expr? o = Syntax.sequence? o items := by
  rw [sequenceOf_reverse]
  match items with
  | [] | [_] | _ :: _ :: _ => rfl

theorem Reader.sequenceOf_depth_le (items : List Syntax) :
    (sequenceOf items.reverse).depth ≤ Syntax.maxDepth items + 1 := by
  rw [sequenceOf_reverse]
  match items with
  | [] => exact Nat.zero_le _
  | [item] =>
    simp only [Syntax.maxDepth]
    omega
  | _ :: _ :: _ => exact Nat.le_refl _

/-- A number that is written out is a pattern for its digits, as long as it is
not longer than a pattern may be. -/
theorem ofText_numeral {text : String} (h : ∀ c ∈ text.toList, isNumeralChar c = true)
    (hlength : text.length ≤ 4096) : ∃ expr, ofText text = .ok ⟨text, "", expr⟩ := by
  have hread : Syntax.read? text =
      some (Reader.sequenceOf (text.toList.map numeralItem).reverse) := by
    have hpattern := Reader.pattern_numeral (p := ⟨false, [], [], []⟩) rfl h
    have hdepth := Reader.sequenceOf_depth_le (text.toList.map numeralItem)
    rw [maxDepth_numeral] at hdepth
    rw [List.append_nil] at hpattern
    simp only [Syntax.read?, hpattern]
    exact if_pos (Nat.le_trans hdepth (by decide))
  obtain ⟨e, he, hforward, hbackward⟩ := sequence?_numeral text.toList
  have hfits : e.fits = true := by
    rw [String.length_toList] at hforward hbackward
    simp only [Expr.fits, stateSize, transitionSize, forkSize, choiceSize, Expr.sizeLimit,
      Bool.and_eq_true]
    exact ⟨decide_eq_true (by omega), decide_eq_true (by omega)⟩
  refine ⟨e, ?_⟩
  simp only [ofText, splitFlags_numeral h, portabilityFault?_numeral h]
  simp [Expr.read?, hread, Reader.sequenceOf_expr?, he, hfits]

end Pattern

/-! ## Declaring a pattern -/

/-- A source that declares a field with a pattern. -/
def declaring (pattern : String) : String :=
  r"data A { x: String(pattern: " ++ Scan.writeString pattern ++ r") }"

def declaredField (pattern : String) : Field :=
  ⟨"x", "String", false, [("pattern", Parser.argumentOf pattern)]⟩

def declaringTokens : List Token :=
  [⟨.keyword .data, "data", ⟨0, 1, 1⟩⟩, ⟨.name, "A", ⟨5, 1, 6⟩⟩,
    ⟨.mark .braceOpen, r"{", ⟨7, 1, 8⟩⟩, ⟨.name, "x", ⟨9, 1, 10⟩⟩,
    ⟨.mark .colon, ":", ⟨10, 1, 11⟩⟩, ⟨.name, "String", ⟨12, 1, 13⟩⟩,
    ⟨.mark .parenOpen, "(", ⟨18, 1, 19⟩⟩, ⟨.name, "pattern", ⟨19, 1, 20⟩⟩,
    ⟨.mark .colon, ":", ⟨26, 1, 27⟩⟩]

/-- The source has known tokens up to the pattern, the pattern as one token, and
two marks behind it. -/
theorem declaring_tokens (pattern : String) :
    ∃ string closing brace, (Tokens.behind (Text.bytes (declaring pattern)) 0).items =
        declaringTokens ++ [string, closing, brace] ∧ string.kind = .string ∧
      string.text = pattern ∧ closing.kind = .mark .parenClose ∧
        brace.kind = .mark .braceClose := by
  have hempty : (Tokens.behind (Text.bytes r"data A { x: String(pattern: " ++
      '"'.toUInt8 :: Text.bytes "\"") 0).items =
        declaringTokens ++ ⟨.string, "", ⟨28, 1, 29⟩⟩ :: [] := by
    decide +kernel
  have hlength : (⟨.string, "", ⟨28, 1, 29⟩⟩ : Token).position.offset =
      (Text.bytes r"data A { x: String(pattern: ").length := by
    decide +kernel
  have hclosing : ∀ q, Scan.tokensFrom q 0 (Text.bytes r") }") =
      [⟨.mark .parenClose, ")", q⟩,
        ⟨.mark .braceClose, r"}", (q.next ')'.toUInt8).next ' '.toUInt8⟩] := fun _ => rfl
  obtain ⟨p, q, hitems⟩ := Tokens.behind_writeString hempty hlength pattern r") }"
  rw [hclosing, ← List.append_assoc, ← Text.bytes_append, ← Text.bytes_append] at hitems
  exact ⟨_, _, _, hitems, rfl, rfl, rfl, rfl⟩

open Grammar in
/-- The source declares the field, with an argument that is a number where the
pattern reads as one. -/
theorem ofSource_declaring (pattern : String) :
    Tree.ofSource (declaring pattern) =
      .ok { schemas := [⟨"A", [declaredField pattern], 1⟩] } := by
  obtain ⟨string, closing, brace, hitems, hstring, htext, hclosing, hbrace⟩ :=
    declaring_tokens pattern
  have hitem : IsItem [⟨.name, "pattern", ⟨19, 1, 20⟩⟩, ⟨.mark .colon, ":", ⟨26, 1, 27⟩⟩, string]
      (.keyed "pattern" string.text) :=
    .keyed rfl rfl (.inr (.inl hstring))
  have harguments : IsArguments [⟨.mark .parenOpen, "(", ⟨18, 1, 19⟩⟩,
      ⟨.name, "pattern", ⟨19, 1, 20⟩⟩, ⟨.mark .colon, ":", ⟨26, 1, 27⟩⟩, string, closing]
        [("pattern", Parser.argumentOf pattern)] := by
    rw [← htext]
    exact .present rfl (.cons hitem .nil) hclosing
  have hfield : IsField [⟨.name, "x", ⟨9, 1, 10⟩⟩, ⟨.mark .colon, ":", ⟨10, 1, 11⟩⟩,
      ⟨.name, "String", ⟨12, 1, 13⟩⟩, ⟨.mark .parenOpen, "(", ⟨18, 1, 19⟩⟩,
      ⟨.name, "pattern", ⟨19, 1, 20⟩⟩, ⟨.mark .colon, ":", ⟨26, 1, 27⟩⟩, string, closing]
        (declaredField pattern) :=
    .field rfl rfl rfl harguments .absent
  have hclose : Listed IsField [brace] [] := .close (fun _ h => absurd h List.not_mem_nil) hbrace
  have hfields : Listed IsField (declaringTokens.drop 3 ++ [string, closing, brace])
      [declaredField pattern] :=
    .cons (fun _ h => absurd h List.not_mem_nil) hfield hclose
  have hblock : IsBlock (declaringTokens ++ [string, closing, brace])
      { schemas := [⟨"A", [declaredField pattern], 1⟩] } :=
    .data rfl rfl rfl hfields
  have hread := Parser.block_of_isBlock (Text.bytes (declaring pattern)) hblock []
    (Tokens.behind (Text.bytes (declaring pattern)) 0).stop
  exact Parser.ofBytes_eq_ok_iff.mpr ⟨_, .step hitems hread (.done _), rfl⟩

/-- The checks of the declared schema are a check of text by the pattern that
was kept. -/
theorem checks_declaredField {pattern text : String} {kept : Pattern}
    (htext : (declaredField pattern).text? "pattern" = some text)
    (hkept : Pattern.ofText text = .ok kept) :
    Schema.checks ⟨"A", [declaredField pattern], 1⟩ =
      .ok [⟨"x", false, .text, none, none, none, some kept, none⟩] := by
  have hother : ∀ key, key ≠ "pattern" → (declaredField pattern).arguments.lookup key = none := by
    intro key hkey
    simp [declaredField, hkey]
  have hkind : (declaredField pattern).kind = .text := by
    have hname : Kind.ofTypeName "String" = .text := by decide +kernel
    rw [Field.kind, Field.enum?, hother enumKey (by decide)]
    exact hname
  have hpattern : (declaredField pattern).pattern? "A" = .ok (some kept) := by
    have hread : (declaredField pattern).readPattern "A" text = .ok kept := by
      rw [Field.readPattern, hkept]
      rfl
    rw [Field.pattern?, htext]
    exact congrArg (some <$> ·) hread
  have hformat : (declaredField pattern).format? "A" = .ok none := by
    have hname : (declaredField pattern).formatName? = none := by
      have hformat : Format.ofName? "String" = none := by decide +kernel
      rw [Field.formatName?, Field.text?, hother "format" (by decide)]
      exact congrArg (Option.map Format.spelling) hformat
    rw [Field.format?, hname]
    rfl
  have hcheck : (declaredField pattern).check "A" =
      .ok ⟨"x", false, .text, none, none, none, some kept, none⟩ := by
    simp only [Field.check, hkind, if_true, hpattern, hformat, Field.number?, Field.enum?,
      hother "min" (by decide), hother "max" (by decide), hother enumKey (by decide)]
    rfl
  simp only [Schema.checks, List.mapM_cons, hcheck]
  rfl

/-- No number begins with a parenthesis, so a pattern with flags is never taken
for one. -/
theorem Decimal.readFinite?_paren {s : String} {cs : List Char} (h : s.toList = '(' :: cs) :
    readFinite? (Text.trim s) = none := by
  obtain ⟨lead, trail, hsplit, hlead, htrail⟩ := Text.exists_blanks s
  rw [h] at hsplit
  have hblank : Text.isBlank '(' = false := by decide
  -- The parenthesis is no blank, so nothing is cut off in front of it.
  have hhead : ∃ rest, (Text.trim s).toList = '(' :: rest := by
    cases lead with
    | cons c lead =>
      obtain ⟨rfl, -⟩ := List.cons.inj hsplit
      rw [hlead '(' List.mem_cons_self] at hblank
      cases hblank
    | nil =>
      cases htrim : (Text.trim s).toList with
      | cons c rest =>
        rw [htrim] at hsplit
        obtain ⟨rfl, -⟩ := List.cons.inj hsplit
        exact ⟨rest, rfl⟩
      | nil =>
        rw [htrim, List.nil_append, List.nil_append] at hsplit
        rw [htrail '(' (by rw [← hsplit]; exact List.mem_cons_self)] at hblank
        cases hblank
  obtain ⟨rest, hrest⟩ := hhead
  simp only [readFinite?, read?, hrest, splitSign]
  rfl

/-- The pattern of a number is its text, since no flags can be split off. -/
theorem Pattern.ofText_of_readFinite? {p : String} {pattern : Pattern} {x : Double}
    (h : ofText p = .ok pattern) (hx : Decimal.readFinite? (Text.trim p) = some x) :
    pattern.source = p ∧ pattern.flags = "" := by
  have hflags : splitFlags p.toList = ([], p.toList) := by
    unfold splitFlags
    split
    next rest hparen =>
      rw [Decimal.readFinite?_paren hparen] at hx
      cases hx
    next => rfl
  obtain ⟨-, -, hflag, hsource⟩ := ofText_eq_ok_iff.mp h
  rw [hflags] at hflag hsource
  exact ⟨hsource.trans String.ofList_toList, hflag⟩

/-- The plain text of a number is a pattern, so a pattern that was taken for a
number is still one. -/
theorem Pattern.ofText_write {x : Double} (hx : x.Representable) :
    ∃ expr, ofText (Decimal.plain.write x) = .ok ⟨Decimal.plain.write x, "", expr⟩ := by
  apply ofText_numeral
  · obtain ⟨cs, hcs, hnumeral⟩ := Decimal.exists_isNumeral hx
    rw [hcs]
    intro c hc
    rcases List.mem_append.mp hc with hsign | hdigit
    · split at hsign
      · rw [List.mem_singleton.mp hsign]
        rfl
      · cases hsign
    · rcases hnumeral.chars c hdigit with hdigit | hpoint
      · simp [isNumeralChar, hdigit]
      · rw [hpoint]
        rfl
  · have := Decimal.length_write_le hx
    omega

/-- A pattern as it is enforced once it has been declared. It is the one that
was written, unless its text reads as a number and is not the plain text of that
number. -/
theorem declared_pattern_enforced {p : String} {pattern : Pattern}
    (h : Pattern.ofText p = .ok pattern) :
    ∃ schema kept, Tree.ofSource (declaring p) = .ok { schemas := [schema] } ∧
      schema.checks = .ok [⟨"x", false, .text, none, none, none, some kept, none⟩] ∧
      (∀ x, Decimal.readFinite? (Text.trim p) = some x →
        Pattern.ofText (Decimal.plain.write x) = .ok kept) ∧
      ((kept.source = pattern.source ∧ kept.flags = pattern.flags ∧
          ∀ text, kept.matchesIn text = pattern.matchesIn text) ↔
        ∀ x, Decimal.readFinite? (Text.trim p) = some x → Decimal.plain.write x = p) := by
  refine ⟨⟨"A", [declaredField p], 1⟩, ?_⟩
  -- An argument that spells a number is kept as the number and written back in plain digits.
  cases hnumber : Decimal.readFinite? (Text.trim p) with
  | none =>
    have htext : (declaredField p).text? "pattern" = some p := by
      simp [Field.text?, declaredField, Parser.argumentOf, hnumber]
    refine ⟨pattern, ofSource_declaring p, checks_declaredField htext h, by simp, ?_⟩
    simp
  | some x =>
    have htext : (declaredField p).text? "pattern" = some (Decimal.plain.write x) := by
      simp [Field.text?, declaredField, Parser.argumentOf, hnumber]
    obtain ⟨expr, hkept⟩ := Pattern.ofText_write (Decimal.representable_of_readFinite? hnumber)
    obtain ⟨hsource, hflags⟩ := Pattern.ofText_of_readFinite? h hnumber
    refine ⟨_, ofSource_declaring p, checks_declaredField htext hkept, ?_, ?_⟩
    · intro y hy
      cases hy
      exact hkept
    · simp only [Option.some.injEq, forall_eq', hsource, hflags, true_and]
      constructor
      · exact fun hsame => hsame.1
      · intro hsame
        rw [hsame, h] at hkept
        cases hkept
        exact ⟨hsame, fun _ => rfl⟩

/-- Zeros in front of a number are lost, and more texts pass: among them one
that the pattern as it was written refuses. -/
theorem declared_pattern_enforced_leading_zeros :
    ∃ pattern schema kept, Pattern.ofText "007" = .ok pattern ∧
      Tree.ofSource (declaring "007") = .ok { schemas := [schema] } ∧
      schema.checks = .ok [⟨"x", false, .text, none, none, none, some kept, none⟩] ∧
      pattern.source = "007" ∧ kept.source = "7" ∧
      pattern.matchesIn "7" = false ∧ kept.matchesIn "7" = true := by
  have hwritten : Pattern.ofText "007" = .ok ⟨"007", "", .seq (.set ⟨[(48, 48)]⟩)
      (.seq (.set ⟨[(48, 48)]⟩) (.set ⟨[(55, 55)]⟩))⟩ := by
    decide +kernel
  have hseven : Pattern.ofText "7" = .ok ⟨"7", "", .set ⟨[(55, 55)]⟩⟩ := by decide +kernel
  obtain ⟨schema, kept, hsource, hchecks, hnumber, -⟩ := declared_pattern_enforced hwritten
  have hread : ∃ x, Decimal.readFinite? (Text.trim "007") = some x ∧
      Decimal.plain.write x = "7" := by
    refine Option.map_eq_some_iff.mp ?_
    decide +kernel
  obtain ⟨x, hx, hwrite⟩ := hread
  have hkept := hnumber x hx
  rw [hwrite, hseven] at hkept
  cases hkept
  exact ⟨_, schema, _, hwritten, hsource, hchecks, rfl, rfl, by decide +kernel, by decide +kernel⟩

end BlockLang
