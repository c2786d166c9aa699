import BlockLang.Json.Reader
import BlockLang.Json.Writer
import BlockLang.Proofs.Numerals
import Mathlib.Data.List.Forall2

/-! # Objects read back from their texts

The text of an object whose values are strings, flags and whole numbers without a sign is read as
the syntax of that object: the same keys with the same values in the same order. Strings may hold
any characters.
-/

namespace BlockLang.Json

/-! ## Strings -/

theorem join?_unit {n : Nat} (h : n < 0xD800) (rest : List Piece) :
    Piece.join? (.unit n :: rest) = (Char.ofNat n :: ·) <$> Piece.join? rest := by
  conv_lhs => unfold Piece.join?
  split
  next => contradiction
  next heq => cases heq
  next high low rest heq =>
    obtain ⟨hn, rfl⟩ := List.cons.inj heq
    obtain rfl := Piece.unit.inj hn
    rw [if_neg (by omega), if_neg (by omega)]
  next heq =>
    obtain ⟨hn, rfl⟩ := List.cons.inj heq
    obtain rfl := Piece.unit.inj hn
    rw [if_neg (by omega)]

theorem takePieces?_plain {c : Char} (hquote : c ≠ '"') (hslash : c ≠ '\\')
    (hcontrol : ¬ c.toNat < 0x20) (rest : List Char) :
    takePieces? (c :: rest) = (takePieces? rest).map fun p => (.char c :: p.1, p.2 + 1) := by
  rw [takePieces?, if_neg (by simp [hslash, hcontrol])]
  · cases takePieces? rest <;> rfl
  · exact fun h => hquote h
  · exact fun _ _ _ _ _ h => absurd h hslash
  · exact fun _ _ h => absurd h hslash

theorem takePieces?_backslash {e c : Char} (h : escaped? e = some c) (rest : List Char) :
    takePieces? ('\\' :: e :: rest) =
      (takePieces? rest).map fun p => (.char c :: p.1, p.2 + 2) := by
  have hu : e ≠ 'u' := by
    rintro rfl
    cases h
  rw [takePieces?]
  · rw [h]
    cases takePieces? rest <;> rfl
  · exact fun _ _ _ _ _ h => absurd h hu

theorem hexValue?_hexDigit (n : Nat) (h : n < 16) : hexValue? (Text.hexDigit n) = some n := by
  revert h
  revert n
  decide

/-- An escaped character is read as one piece, which stands for the
character. -/
theorem takePieces?_escapeChar (c : Char) (rest : List Char) :
    ∃ piece, (∀ pieces, Piece.join? (piece :: pieces) = (c :: ·) <$> Piece.join? pieces) ∧
      takePieces? (Text.escapeChar c ++ rest) = (takePieces? rest).map fun p =>
        (piece :: p.1, p.2 + (Text.escapeChar c).length) := by
  fun_cases Text.escapeChar c with
  | case1 =>
      subst c
      exact ⟨.char '"', fun _ => rfl, takePieces?_backslash rfl rest⟩
  | case2 =>
      subst c
      exact ⟨.char '\\', fun _ => rfl, takePieces?_backslash rfl rest⟩
  | case3 =>
      subst c
      exact ⟨.char '\n', fun _ => rfl, takePieces?_backslash rfl rest⟩
  | case4 =>
      subst c
      exact ⟨.char '\r', fun _ => rfl, takePieces?_backslash rfl rest⟩
  | case5 =>
      subst c
      exact ⟨.char '\t', fun _ => rfl, takePieces?_backslash rfl rest⟩
  | case6 _ _ _ _ _ hback =>
      obtain rfl : c = '\x08' := Char.toNat_inj.mp hback
      exact ⟨.char '\x08', fun _ => rfl, takePieces?_backslash rfl rest⟩
  | case7 _ _ _ _ _ _ hfeed =>
      obtain rfl : c = '\x0c' := Char.toNat_inj.mp hfeed
      exact ⟨.char '\x0c', fun _ => rfl, takePieces?_backslash rfl rest⟩
  | case8 _ _ _ _ _ _ _ hcontrol =>
      -- The other control characters are below 0x20, so their escapes start with two zeros.
      refine ⟨.unit c.toNat, fun pieces => ?_, ?_⟩
      · rw [join?_unit (by omega), Char.ofNat_toNat]
      · have hcode : 0x1000 * 0 + 0x100 * 0 + 0x10 * (c.toNat / 16) + c.toNat % 16 = c.toNat := by
          omega
        simp only [List.cons_append, List.nil_append]
        rw [takePieces?, hexValue?_hexDigit _ (by omega), hexValue?_hexDigit _ (by omega),
          show hexValue? '0' = some 0 from rfl]
        cases takePieces? rest with
        | none => rfl
        | some p =>
            simp only [Option.bind_eq_bind, Option.bind_some, hcode, Option.map_some]
            rfl
  | case9 hquote hslash _ _ _ _ _ hcontrol =>
      exact ⟨.char c, fun _ => rfl, takePieces?_plain hquote hslash hcontrol rest⟩

/-- The pieces of an escaped text are read up to the quote behind it, and stand
for the text. -/
theorem takePieces?_escape (cs rest : List Char) :
    ∃ pieces, Piece.join? pieces = some cs ∧
      takePieces? (Text.escape cs ++ '"' :: rest) = some (pieces, (Text.escape cs).length + 1) := by
  induction cs with
  | nil => exact ⟨[], rfl, rfl⟩
  | cons c cs ih =>
      obtain ⟨pieces, hjoin, htake⟩ := ih
      obtain ⟨piece, hpiece, hchar⟩ := takePieces?_escapeChar c (Text.escape cs ++ '"' :: rest)
      refine ⟨piece :: pieces, by rw [hpiece, hjoin]; rfl, ?_⟩
      rw [Text.escape, List.flatMap_cons, List.append_assoc, ← Text.escape, hchar, htake,
        Option.map_some, List.length_append]
      simp only [Option.some.injEq, Prod.mk.injEq, true_and]
      omega

/-! ## Lexemes -/

theorem lexemes?_space {c : Char} (h : isSpace c = true) (rest : List Char) :
    lexemes? (c :: rest) = lexemes? rest := by
  rw [lexemes?, if_pos h]

theorem lexemes?_spaces {cs : List Char} (h : ∀ c ∈ cs, isSpace c = true) (rest : List Char) :
    lexemes? (cs ++ rest) = lexemes? rest := by
  induction cs with
  | nil => rfl
  | cons c cs ih =>
      obtain ⟨hc, hcs⟩ := List.forall_mem_cons.mp h
      rw [List.cons_append, lexemes?_space hc, ih hcs]

/-- A lexeme is taken whole, and what follows it is read on its own. -/
theorem lexemes?_lexeme {c : Char} {cs rest : List Char} {lexeme : Lexeme}
    (hspace : isSpace c = false) (h : takeLexeme? c (cs ++ rest) = some (lexeme, cs.length)) :
    lexemes? (c :: cs ++ rest) = (lexeme :: ·) <$> lexemes? rest := by
  rw [List.cons_append, lexemes?, if_neg (by simp [hspace]), h]
  simp only [Option.bind_eq_bind, Option.bind_some, List.drop_left]
  cases lexemes? rest <;> rfl

theorem lexemes?_mark {c : Char} {rest : List Char} {lexeme : Lexeme} (hspace : isSpace c = false)
    (h : takeLexeme? c rest = some (lexeme, 0)) :
    lexemes? (c :: rest) = (lexeme :: ·) <$> lexemes? rest := by
  have htake : takeLexeme? c ("".toList ++ rest) = some (lexeme, "".toList.length) := h
  exact lexemes?_lexeme hspace htake

theorem lexemes?_quoted (s : String) (rest : List Char) :
    lexemes? ((Text.quoted s).toList ++ rest) = (.string (some s) :: ·) <$> lexemes? rest := by
  obtain ⟨pieces, hjoin, htake⟩ := takePieces?_escape s.toList rest
  have htext : (Text.quoted s).toList = '"' :: (Text.escape s.toList ++ ['"']) := by
    simp [Text.quoted]
  rw [htext]
  refine lexemes?_lexeme rfl ?_
  rw [takeLexeme?, if_neg (by decide), if_neg (by decide), if_neg (by decide),
    if_neg (by decide), if_neg (by decide), if_neg (by decide), if_pos rfl, List.append_assoc,
    List.singleton_append, htake]
  simp only [Option.bind_eq_bind, Option.bind_some, hjoin, List.length_append]
  simp [Functor.map]

def Delimited (cs : List Char) : Prop :=
  ∀ c ∈ cs.head?, c.isDigit = false ∧ c ≠ '.' ∧ c ≠ 'e' ∧ c ≠ 'E'

/-- The digits of a number are taken as they are: none of them is a leading
zero, and nothing behind them belongs to the number. -/
theorem takeWhole?_toDigits (n : Nat) {rest : List Char} (h : Delimited rest) :
    takeWhole? (Nat.toDigits 10 n ++ rest) = some (Nat.toDigits 10 n) := by
  have hdigits : ∀ c ∈ Nat.toDigits 10 n, c.isDigit = true := fun c hc =>
    Nat.isDigit_of_mem_toDigits (by decide) (by decide) hc
  rcases Nat.eq_zero_or_pos n with rfl | hn
  · rfl
  · obtain ⟨c, cs, hcs, hc⟩ := Decimal.head_toDigits hn
    rw [hcs] at hdigits ⊢
    obtain ⟨hdigit, hall⟩ := List.forall_mem_cons.mp hdigits
    rw [List.cons_append, takeWhole?, if_neg hc, if_pos hdigit,
      List.takeWhile_append_of_pos hall]
    cases rest with
    | nil => simp
    | cons d rest => simp [(h d rfl).1]

/-- A number is taken up to the character behind its digits, and its value is
read back from them. -/
theorem take?_toDigits {n : Nat} (hn : n < wordLimit) {rest : List Char} (h : Delimited rest) :
    Numeral.take? (Nat.toDigits 10 n ++ rest) =
      some ⟨some (.whole n), (Nat.toDigits 10 n).length⟩ := by
  have hsign : (Nat.toDigits 10 n ++ rest).head? ≠ some '-' := by
    cases hcs : Nat.toDigits 10 n with
    | nil => exact absurd hcs Nat.toDigits_ne_nil
    | cons c cs =>
        have hdigit := Nat.isDigit_of_mem_toDigits (b := 10) (c := c) (n := n) (by decide)
          (by decide) (by simp [hcs])
        rintro hc
        obtain rfl : c = '-' := Option.some.inj hc
        cases hdigit
  -- What delimits the digits starts neither a fraction nor an exponent.
  have hfraction : takeFraction? rest = some none := by
    cases rest with
    | nil => rfl
    | cons c rest =>
        rw [takeFraction?]
        exact fun _ hc => (h c rfl).2.1 (List.cons.inj hc).1
  have hexponent : takeExponent? rest = some none := by
    cases rest with
    | nil => rfl
    | cons c rest => rw [takeExponent?, if_neg (by simp [(h c rfl).2.2])]
  have hvalue : ofWholeDigits? false (Nat.toDigits 10 n) = some (.whole n) := by
    simp [ofWholeDigits?, Decimal.digitsValue_toDigits, hn]
  simp only [Numeral.take?, hsign, decide_false, if_false, takeWhole?_toDigits n h,
    Option.bind_eq_bind, Option.bind_some, List.drop_left, hfraction, Option.elim_none,
    List.drop_zero, hexponent, hvalue]
  simp

theorem lexemes?_number {n : Nat} (hn : n < wordLimit) {rest : List Char} (h : Delimited rest) :
    lexemes? (Nat.toDigits 10 n ++ rest) = (.scalar (some (.whole n)) :: ·) <$> lexemes? rest := by
  have htake := take?_toDigits hn h
  cases hcs : Nat.toDigits 10 n with
  | nil => exact absurd hcs Nat.toDigits_ne_nil
  | cons c cs =>
      have hdigit := Nat.isDigit_of_mem_toDigits (b := 10) (c := c) (n := n) (by decide)
        (by decide) (by simp [hcs])
      have hne : ∀ d : Char, d.isDigit = false → c ≠ d := by
        rintro d hd rfl
        rw [hd] at hdigit
        cases hdigit
      refine lexemes?_lexeme ?_ ?_
      · simp [isSpace, hne]
      · rw [hcs] at htake
        rw [takeLexeme?, if_neg (hne _ rfl), if_neg (hne _ rfl), if_neg (hne _ rfl),
          if_neg (hne _ rfl), if_neg (hne _ rfl), if_neg (hne _ rfl), if_neg (hne _ rfl),
          if_neg fun h => hne _ rfl h.1, if_neg fun h => hne _ rfl h.1,
          if_neg fun h => hne _ rfl h.1, ← List.cons_append, htake]
        rfl

/-! ## Objects -/

namespace Syntax

def Reader.run? (reader : Reader) (cs : List Char) : Option Reader := do
  (← lexemes? cs).foldlM Reader.next? reader

/-- The reader behind a text is the reader behind its first lexeme, and then
behind the rest. -/
theorem run?_lexeme {cs rest : List Char} {lexeme : Lexeme}
    (h : lexemes? cs = (lexeme :: ·) <$> lexemes? rest) {reader next : Reader}
    (hnext : reader.next? lexeme = some next) : reader.run? cs = next.run? rest := by
  rw [Reader.run?, Reader.run?, h]
  cases lexemes? rest with
  | none => rfl
  | some lexemes =>
      simp only [Option.map_eq_map, Option.map_some, Option.bind_eq_bind, Option.bind_some,
        List.foldlM_cons, hnext]

theorem run?_of_lexemes? {cs rest : List Char} (h : lexemes? cs = lexemes? rest) (reader : Reader) :
    reader.run? cs = reader.run? rest := by
  rw [Reader.run?, Reader.run?, h]

/-- A text is read if its lexemes lead the reader to the end of a value. -/
theorem read?_of_run? {text : String} {stack : List Frame} {result : Syntax}
    (h : Reader.run? ⟨[], .value⟩ text.toList = some ⟨stack, .finished result⟩) :
    read? text = some result := by
  rw [read?]
  rw [Reader.run?] at h
  cases hlexemes : lexemes? text.toList with
  | none =>
      rw [hlexemes] at h
      cases h
  | some lexemes =>
      rw [hlexemes] at h
      simp only [Option.bind_eq_bind, Option.bind_some] at h ⊢
      rw [h]
      rfl

/-- The syntax of a value that is a flag, a string or a whole number without a
sign. -/
inductive IsSimple : Json → Syntax → Prop where
  | flag (b : Bool) : IsSimple (.bool b) (.scalar (some (.bool b)))
  | text (s : String) : IsSimple (.text s) (.string (some s))
  | number {n : Nat} (h : n < wordLimit) : IsSimple (.whole n) (.scalar (some (.whole n)))

/-- A simple value is one lexeme, which the reader takes as the value of the
member that it is in. -/
theorem IsSimple.run?_eq {value : Json} {s : Syntax} (h : IsSimple value s) (level : Nat)
    {key : Option String} {before : List (Option String × Syntax)} {outer : List Frame}
    {rest : List Char} (hrest : Delimited rest) :
    Reader.run? ⟨.member key before :: outer, .value⟩ ((value.prettyAt level).toList ++ rest) =
      Reader.run? ⟨.object ((key, s) :: before) :: outer, .commaOrClose⟩ rest := by
  cases h with
  | flag b =>
      have hlexeme : lexemes? (((Json.bool b).prettyAt level).toList ++ rest) =
          (.scalar (some (.bool b)) :: ·) <$> lexemes? rest := by
        cases b with
        | true =>
            have htext : ((Json.bool true).prettyAt level).toList = 't' :: "rue".toList := by
              simp [prettyAt, writeScalar]
            have htake : takeLexeme? 't' ("rue".toList ++ rest) =
              some (.scalar (some (.bool true)), 3) := rfl
            rw [htext]
            exact lexemes?_lexeme rfl htake
        | false =>
            have htext : ((Json.bool false).prettyAt level).toList = 'f' :: "alse".toList := by
              simp [prettyAt, writeScalar]
            have htake : takeLexeme? 'f' ("alse".toList ++ rest) =
              some (.scalar (some (.bool false)), 4) := rfl
            rw [htext]
            exact lexemes?_lexeme rfl htake
      exact run?_lexeme hlexeme rfl
  | text s => exact run?_lexeme (lexemes?_quoted s rest) rfl
  | @number n hn =>
      have htext : ((Json.whole n).prettyAt level).toList = Nat.toDigits 10 n := by
        change (Nat.repr n).toList = _
        rw [Nat.toList_repr]
      rw [htext]
      exact run?_lexeme (lexemes?_number hn hrest) rfl

def AreSimple : List (String × Json) → List (Option String × Syntax) → Prop :=
  List.Forall₂ fun m s => s.1 = some m.1 ∧ IsSimple m.2 s.2

section

variable {m : String × Json} {s : Option String × Syntax} {members : List (String × Json)}
  {parts before : List (Option String × Syntax)} {outer : List Frame} {e : Expecting}
  {rest : List Char}

/-- A member is a quoted key, a colon and a value. -/
theorem run?_member (hm : s.1 = some m.1 ∧ IsSimple m.2 s.2) (he : e = .key ∨ e = .keyOrClose)
    (level : Nat) (hrest : Delimited rest) :
    Reader.run? ⟨.object before :: outer, e⟩
        ((Text.quoted m.1 ++ ": " ++ m.2.prettyAt level).toList ++ rest) =
      Reader.run? ⟨.object (s :: before) :: outer, .commaOrClose⟩ rest := by
  obtain ⟨key, s⟩ := s
  obtain ⟨rfl, hs⟩ := hm
  have hkey : Reader.next? ⟨.object before :: outer, e⟩ (.string (some m.1)) =
      some ⟨.member (some m.1) before :: outer, .colon⟩ := by
    rcases he with rfl | rfl <;> rfl
  have htext : (Text.quoted m.1 ++ ": " ++ m.2.prettyAt level).toList ++ rest =
      (Text.quoted m.1).toList ++ (':' :: ' ' :: ((m.2.prettyAt level).toList ++ rest)) := by
    simp
  rw [htext, run?_lexeme (lexemes?_quoted m.1 _) hkey,
    run?_lexeme (lexemes?_mark rfl rfl) rfl,
    run?_of_lexemes? (lexemes?_space rfl _), hs.run?_eq level hrest]

theorem isSpace_of_mem_lineStart {level : Nat} :
    ∀ c ∈ (lineStart level).toList, isSpace c = true := by
  simp [lineStart, isSpace]

/-- Members that are joined by commas and line breaks are read one after
another. -/
theorem run?_members (h : AreSimple (m :: members) (s :: parts))
    (he : e = .key ∨ e = .keyOrClose) (level : Nat) (hrest : Delimited rest) :
    Reader.run? ⟨.object before :: outer, e⟩ ((String.intercalate ("," ++ lineStart level)
        (prettyMembers level (m :: members))).toList ++ rest) =
      Reader.run? ⟨.object ((s :: parts).reverse ++ before) :: outer, .commaOrClose⟩ rest := by
  obtain ⟨hm, hmembers⟩ := List.forall₂_cons.mp h
  induction members generalizing m s parts before e with
  | nil =>
      obtain rfl := List.forall₂_nil_left_iff.mp hmembers
      simpa [prettyMembers] using run?_member hm he level hrest
  | cons next members ih =>
      obtain ⟨part, parts, hnext, hmore, rfl⟩ := List.forall₂_cons_left_iff.mp hmembers
      have htext : (String.intercalate ("," ++ lineStart level)
          (prettyMembers level (m :: next :: members))).toList ++ rest =
          (Text.quoted m.1 ++ ": " ++ m.2.prettyAt level).toList ++ (',' ::
            ((lineStart level).toList ++ ((String.intercalate ("," ++ lineStart level)
              (prettyMembers level (next :: members))).toList ++ rest))) := by
        simp [prettyMembers, String.intercalate_cons_cons]
      rw [htext, run?_member hm he level (by simp [Delimited]),
        run?_lexeme (lexemes?_mark rfl rfl) rfl,
        run?_of_lexemes? (lexemes?_spaces isSpace_of_mem_lineStart _),
        ih hmembers (.inl rfl) hnext hmore]
      simp

/-- An object with simple values is read back from its text. -/
theorem read?_pretty (h : AreSimple members parts) (hne : members ≠ []) :
    read? (Json.object members).pretty = some (.object parts) := by
  obtain ⟨m, members, rfl⟩ := List.exists_cons_of_ne_nil hne
  obtain ⟨s, parts, hs, hparts, rfl⟩ := List.forall₂_cons_left_iff.mp h
  have htext : (Json.object (m :: members)).pretty.toList = '{' :: ((lineStart 1).toList ++
      ((String.intercalate ("," ++ lineStart 1) (prettyMembers 1 (m :: members))).toList ++
        ('\n' :: '}' :: []))) := by
    simp [pretty, prettyAt, bracketed, prettyMembers, lineStart]
  have hclose : Reader.next? ⟨[.object (s :: parts).reverse], .commaOrClose⟩ .closeObject =
      some ⟨[], .finished (.object (s :: parts))⟩ := by
    simp [Reader.next?, Reader.close?, Reader.push?]
  -- The brace, the space before the members, the members, the line break and the last brace.
  have hrun : Reader.run? ⟨[], .value⟩ (Json.object (m :: members)).pretty.toList =
      some ⟨[], .finished (.object (s :: parts))⟩ := by
    rw [htext, run?_lexeme (lexemes?_mark rfl rfl) rfl,
      run?_of_lexemes? (lexemes?_spaces isSpace_of_mem_lineStart _),
      run?_members h (.inr rfl) 1 (by simp [Delimited]), List.append_nil,
      run?_of_lexemes? (lexemes?_space rfl _), run?_lexeme (lexemes?_mark rfl rfl) hclose,
      Reader.run?, lexemes?]
    rfl
  exact read?_of_run? hrun

end

end Syntax

end BlockLang.Json
