import BlockLang.Proofs.Encoding
import BlockLang.Proofs.GeneratedCode
import BlockLang.Proofs.Lists
import BlockLang.Proofs.Numerals
import BlockLang.Proofs.Readers
import BlockLang.Proofs.Script.Syntax
import Mathlib.Data.List.Find

/-! # Reading scripts part by part

The tokens of a text put together are those of its parts, if no part ends in the middle of a token.
Literals that the generator writes are read back as what was written. Statements are read one after
the other in the same way.
-/

namespace BlockLang.Script

/-! ## Tokens of texts -/

/-- Whether a text has some tokens whatever follows it. -/
def Lexes (s : String) (ts : List Token) : Prop :=
  ∀ rest, tokensFrom 0 (s.toList ++ rest) = ts ++ tokensFrom 0 rest

variable {s : String} {ts us : List Token} {c : Char} {rest part cs : List Char} {t : Token}
  {x : Double} {ss : List Stmt} {e : Expr}

theorem Lexes.append {s' : String} {ts' : List Token} (h : Lexes s ts) (h' : Lexes s' ts') :
    Lexes (s ++ s') (ts ++ ts') := by
  intro rest
  rw [String.toList_append, List.append_assoc, h, h', List.append_assoc]

theorem Lexes.tokens_eq (h : Lexes s ts) : tokens s = ts := by
  have hall := h []
  rw [List.append_nil] at hall
  rw [tokens, hall, tokensFrom, List.append_nil]

theorem lexes_empty : Lexes "" [] := fun _ => rfl

theorem tokensFrom_length (cs rest : List Char) :
    tokensFrom cs.length (cs ++ rest) = tokensFrom 0 rest := by
  induction cs with
  | nil => rfl
  | cons c cs ih => exact ih

theorem tokensFrom_cons (h : isBlank c = false) :
    tokensFrom 0 (c :: rest) = (readToken c rest).1 :: tokensFrom (readToken c rest).2 rest := by
  rw [tokensFrom, if_neg (by rw [h]; decide)]

/-- A token whose characters are known is read as such, and what follows is read
next. -/
theorem tokensFrom_token (hc : isBlank c = false)
    (h : readToken c (part ++ rest) = (t, part.length)) :
    tokensFrom 0 (c :: part ++ rest) = t :: tokensFrom 0 rest := by
  rw [List.cons_append, tokensFrom_cons hc, h, tokensFrom_length]

theorem tokensFrom_last (hc : isBlank c = false)
    (h : readToken c part = (t, part.length)) : tokensFrom 0 (c :: part) = [t] := by
  rw [← List.append_nil part] at h ⊢
  rw [← List.cons_append, tokensFrom_token hc (by rw [h, List.append_nil])]
  rfl

/-! ## Tokens that end -/

/-- Whether a character is a token of its own, or none, wherever it stands. -/
def standsAlone (c : Char) : Bool :=
  isBlank c || ['(', ')', '[', ']', '{', '}', ';', ','].contains c

theorem lt_of_isNamePart (h : isNamePart c = true) : c.toNat < 128 := by
  unfold isNamePart Char.isAlphanum Char.isAlpha Char.isUpper Char.isLower Char.isDigit at h
  simp only [Bool.or_eq_true, Bool.and_eq_true, decide_eq_true_eq, beq_iff_eq, ge_iff_le,
    UInt32.le_iff_toNat_le] at h
  rcases h with (((h | h) | h) | rfl) | rfl
  · exact Nat.lt_of_le_of_lt h.2 (by decide)
  · exact Nat.lt_of_le_of_lt h.2 (by decide)
  · exact Nat.lt_of_le_of_lt h.2 (by decide)
  · decide
  · decide

/-- A character that stands alone is no part of a longer token: of no name, no
number and no mark of several characters. -/
theorem not_part_of_standsAlone (h : standsAlone c = true) :
    isNamePart c = false ∧ c ≠ '.' ∧ ∀ p ∈ punctuators, c ∉ p.1.tail := by
  -- Up to 127 every character is tried. Above there are blanks, but no parts of tokens.
  by_cases hascii : c.toNat < 128
  · have hall : ∀ n < 128, standsAlone (Char.ofNat n) = true → isNamePart (Char.ofNat n) = false ∧
        Char.ofNat n ≠ '.' ∧ ∀ p ∈ punctuators, Char.ofNat n ∉ p.1.tail := by decide +kernel
    have hc := hall c.toNat hascii
    rw [Char.ofNat_toNat] at hc
    exact hc h
  · refine ⟨?_, ?_, ?_⟩
    · rw [Bool.eq_false_iff]
      exact fun hpart => hascii (lt_of_isNamePart hpart)
    · rintro rfl
      exact hascii (by decide)
    · have hall : punctuators.all (·.1.tail.all (·.toNat < 128)) = true := by decide +kernel
      intro p hp hmem
      have htail := List.all_eq_true.mp (List.all_eq_true.mp hall p hp) c hmem
      exact hascii (of_decide_eq_true htail)

/-- A character that stands alone ends the token before it. -/
theorem readToken_append_stop {d : Char} (hc : standsAlone c = true) (hd : d ≠ '"')
    (rest : List Char) : readToken d (cs ++ c :: rest) = readToken d cs := by
  obtain ⟨hpart, hpoint, htail⟩ := not_part_of_standsAlone hc
  have hfind : punctuators.find? (·.1.isPrefixOf (d :: (cs ++ c :: rest))) =
      punctuators.find? (·.1.isPrefixOf (d :: cs)) := by
    apply List.find?_congr
    intro p hp
    obtain ⟨text, token⟩ := p
    cases text with
    | nil => rfl
    | cons d' text =>
        have hstop : c ∉ text := htail _ hp
        simp only [List.isPrefixOf, List.isPrefixOf_append_stop hstop]
  unfold readToken
  rw [List.takeWhile_append_stop hpart, List.takeWhile_append_stop (by simp [hpart, hpoint]),
    if_neg hd, if_neg hd, hfind]

theorem readToken_size_le {d : Char} (hd : d ≠ '"') : (readToken d cs).2 ≤ cs.length := by
  unfold readToken
  rw [if_neg hd]
  split
  · exact (List.takeWhile_sublist isNamePart).length_le
  · split
    · exact (List.takeWhile_sublist _).length_le
    · split
      next text token hfind =>
        have hmatch := List.find?_some hfind
        have hle := (List.isPrefixOf_iff_prefix.mp hmatch).length_le
        simp only [List.length_cons] at hle
        simp only
        omega
      next => exact Nat.zero_le _

/-- The tokens before a character that stands alone do not depend on what
follows it. -/
theorem tokensFrom_append_stop (hc : standsAlone c = true) (hquote : '"' ∉ cs) {skip : Nat}
    (hskip : skip ≤ cs.length) (rest : List Char) :
    tokensFrom skip (cs ++ c :: rest) = tokensFrom skip cs ++ tokensFrom 0 (c :: rest) := by
  -- What is skipped ends in front of `c`, so a token that is read from `cs` ends there too.
  induction cs generalizing skip with
  | nil =>
      obtain rfl : skip = 0 := Nat.le_zero.mp hskip
      rfl
  | cons d cs ih =>
      simp only [List.mem_cons, not_or] at hquote
      cases skip with
      | succ skip => exact ih hquote.2 (Nat.le_of_succ_le_succ hskip)
      | zero =>
          rw [List.cons_append]
          by_cases hblank : isBlank d = true
          · rw [tokensFrom, tokensFrom, if_pos hblank, if_pos hblank]
            exact ih hquote.2 (Nat.zero_le _)
          · rw [tokensFrom, if_neg hblank, tokensFrom, if_neg hblank,
              readToken_append_stop hc (Ne.symm hquote.1)]
            simp only [List.cons_append]
            rw [ih hquote.2 (readToken_size_le (Ne.symm hquote.1))]

/-- Behind a character that stands alone the tokens begin anew. -/
theorem tokensFrom_standsAlone (hc : standsAlone c = true) (rest : List Char) :
    tokensFrom 0 (c :: rest) = tokensFrom 0 [c] ++ tokensFrom 0 rest := by
  by_cases hblank : isBlank c = true
  · rw [tokensFrom, tokensFrom, if_pos hblank, if_pos hblank]
    rfl
  · simp only [standsAlone, hblank, Bool.false_or, List.contains_iff_mem, List.mem_cons,
      List.not_mem_nil, or_false] at hc
    rcases hc with rfl | rfl | rfl | rfl | rfl | rfl | rfl | rfl <;> rfl

/-- A text with something behind it that stands alone has the same tokens
whatever follows, and these can be computed for the text alone. -/
theorem lexes_before (hquote : '"' ∉ s.toList) (hc : standsAlone c = true) :
    Lexes (s ++ String.ofList [c]) (tokens s ++ tokens (String.ofList [c])) := by
  intro rest
  rw [String.toList_append, String.toList_ofList, List.append_assoc, List.singleton_append,
    tokensFrom_append_stop hc hquote (Nat.zero_le _), tokensFrom_standsAlone hc, tokens, tokens,
    String.toList_ofList, List.append_assoc]

theorem lexes_of_tokens
    (h : s.toList.getLast?.any standsAlone = true ∧ '"' ∉ s.toList ∧ tokens s = ts) :
    Lexes s ts := by
  obtain ⟨hlast, hquote, htokens⟩ := h
  obtain ⟨c, hc, halone⟩ := (Option.any_eq_true _ _).mp hlast
  obtain ⟨cs, hcs⟩ := List.getLast?_eq_some_iff.mp hc
  have hs : s = String.ofList cs ++ String.ofList [c] := by
    rw [← String.ofList_append, ← hcs, String.ofList_toList]
  rw [hcs] at hquote
  have hlex := lexes_before (s := String.ofList cs) (c := c)
    (by simpa using fun hmem => hquote (List.mem_append_left _ hmem)) halone
  rw [← hs] at hlex
  rw [← htokens, hlex.tokens_eq]
  exact hlex

/-! ## String literals -/

/-- A control character is read back from the four digits that it is written
with. -/
theorem unicode?_control (n : Nat) (h : n < 0x20) :
    unicode? ['0', '0', Text.hexDigit (n / 16), Text.hexDigit (n % 16)] = some (Char.ofNat n) := by
  revert h
  revert n
  decide

theorem literal?_plain (hquote : c ≠ '"') (hslash : c ≠ '\\') (hnewline : c ≠ '\n')
    (hreturn : c ≠ '\r') (rest : List Char) :
    literal? (c :: rest) = (literal? rest).map fun p => (c :: p.1, p.2 + 1) := by
  rw [literal?, if_neg hquote, if_neg (by simp [hnewline, hreturn, hslash])]
  · cases literal? rest <;> rfl
  · exact fun _ _ _ _ _ h => absurd h hslash
  · exact fun _ _ h => absurd h hslash

theorem literal?_backslash {e : Char} (h : escaped? e = some c) (rest : List Char) :
    literal? ('\\' :: e :: rest) = (literal? rest).map fun p => (c :: p.1, p.2 + 2) := by
  have hu : e ≠ 'u' := by
    rintro rfl
    cases h
  rw [literal?]
  · rw [h]
    cases literal? rest <;> rfl
  · exact fun _ _ _ _ _ h => absurd h hu

/-- An escaped character is read as the character, for each way in which a
character can be written. -/
theorem literal?_escapeChar (c : Char) (rest : List Char) :
    literal? (Text.escapeChar c ++ rest) =
      (literal? rest).map fun p => (c :: p.1, p.2 + (Text.escapeChar c).length) := by
  fun_cases Text.escapeChar c with
  | case6 _ _ _ _ _ hback =>
      obtain rfl : c = '\x08' := Char.toNat_inj.mp hback
      exact literal?_backslash rfl rest
  | case7 _ _ _ _ _ _ hfeed =>
      obtain rfl : c = '\x0c' := Char.toNat_inj.mp hfeed
      exact literal?_backslash rfl rest
  | case8 _ _ _ _ _ _ _ hcontrol =>
      have hcode := unicode?_control c.toNat hcontrol
      rw [Char.ofNat_toNat] at hcode
      simp only [List.cons_append, List.nil_append]
      rw [literal?, hcode]
      cases literal? rest <;> rfl
  | case9 hquote hslash hnewline hreturn =>
      exact literal?_plain hquote hslash hnewline hreturn rest
  | _ =>
      subst c
      exact literal?_backslash rfl rest

/-- An escaped text is read back up to its closing quote, which is the first one
that no backslash stands before. -/
theorem literal?_escape (cs rest : List Char) :
    literal? (Text.escape cs ++ '"' :: rest) = some (cs, (Text.escape cs).length + 1) := by
  induction cs with
  | nil => rfl
  | cons c cs ih =>
      rw [Text.escape] at ih ⊢
      rw [List.flatMap_cons, List.append_assoc, literal?_escapeChar, ih, Option.map_some,
        List.length_append]
      simp only [Option.some.injEq, Prod.mk.injEq, true_and]
      omega

theorem lexes_string (s : String) : Lexes (Code.string s) [.string s] := by
  intro rest
  have htext : (Code.string s).toList ++ rest =
      '"' :: (Text.escape s.toList ++ ['"']) ++ rest := by
    simp [Code.string, Text.quoted]
  rw [htext]
  apply tokensFrom_token rfl
  have hliteral := literal?_escape s.toList rest
  rw [readToken, if_neg (by decide), if_neg (by decide), if_pos rfl]
  simp only [List.append_assoc, List.singleton_append, hliteral, String.ofList_toList,
    List.length_append, List.length_singleton]

/-! ## Array literals -/

def itemTokens : List String → List Token
  | [] => [.mark .bracketClose]
  | [s] => [.string s, .mark .bracketClose]
  | s :: rest => .string s :: .mark .comma :: itemTokens rest

theorem lexes_items (values : List String) :
    Lexes (String.intercalate ", " (values.map Code.string) ++ "]") (itemTokens values) := by
  have hclose : Lexes "]" [.mark .bracketClose] := lexes_of_tokens (by decide)
  have hcomma : Lexes ", " [.mark .comma] := lexes_of_tokens (by decide)
  induction values with
  | nil => simpa [itemTokens] using hclose
  | cons s rest ih =>
      cases rest with
      | nil => simpa [itemTokens] using (lexes_string s).append hclose
      | cons s' rest =>
          simp only [List.map_cons, String.intercalate_cons_cons, String.append_assoc] at ih ⊢
          exact (lexes_string s).append (hcomma.append ih)

/-! ## Number literals -/

def numberTokens (x : Double) : List Token :=
  (if x.negative then [.mark .minus] else []) ++ [.number (.finite ⟨false, x.steps⟩)]

theorem isNamePart_of_isDigit (h : c.isDigit = true) : isNamePart c = true := by
  simp [isNamePart, Char.isAlphanum, h]

theorem of_isDigit (h : c.isDigit = true) : isNameStart c = false ∧ isBlank c = false := by
  have hrange : 48 ≤ c.toNat ∧ c.toNat ≤ 57 := by
    simpa [Char.isDigit, UInt32.le_iff_toNat_le] using h
  have hchar : c = Char.ofNat c.toNat := (Char.ofNat_toNat c).symm
  generalize c.toNat = n at hrange hchar
  subst hchar
  obtain ⟨hlow, hhigh⟩ := hrange
  interval_cases n <;> decide

/-- A numeral is one token with its value. -/
theorem readToken_numeral (h : Decimal.IsNumeral (c :: part) x) :
    readToken c part = (.number (.finite ⟨false, x.steps⟩), part.length) := by
  obtain ⟨d, part', hcons, hdigit, hzero⟩ := h.start
  obtain ⟨rfl, rfl⟩ := List.cons.inj hcons
  have htake : part.takeWhile (fun d => isNamePart d || d == '.') = part := by
    rw [List.takeWhile_eq_self_iff]
    intro d hd
    rcases h.chars d (List.mem_cons_of_mem _ hd) with hdigit | rfl
    · simp [isNamePart_of_isDigit hdigit]
    · rfl
  have hleading : ¬(c = '0' ∧ part.head?.any Char.isDigit = true) := by
    rintro ⟨rfl, hany⟩
    obtain ⟨d, hd, hdigit⟩ := (Option.any_eq_true _ _).mp hany
    rw [hzero rfl d hd] at hdigit
    cases hdigit
  rw [readToken, if_neg (by rw [(of_isDigit hdigit).1]; decide), if_pos hdigit]
  simp only [htake, numeral, if_neg hleading, h.reads]

theorem readToken_minus (h : c.isDigit = true) : readToken '-' (c :: rest) = (.mark .minus, 0) := by
  have hminus : '-' ≠ c := by
    rintro rfl
    cases h
  have hequal : '=' ≠ c := by
    rintro rfl
    cases h
  simp [readToken, isNameStart, punctuators, hminus, hequal]

theorem number_chars : ∀ c ∈ (Code.number x).toList, c ≠ '"' ∧ isNameStart c = false := by
  obtain ⟨first, part, htext, hfirst, hpart⟩ := Text.exists_numeral x
  have hdigits {c : Char} (h : c.isDigit = true) : c ≠ '"' ∧ isNameStart c = false := by
    refine ⟨?_, (of_isDigit h).1⟩
    rintro rfl
    cases h
  rw [htext]
  refine List.forall_mem_append.mpr ⟨by split <;> simp [isNameStart], ?_⟩
  refine List.forall_mem_cons.mpr ⟨hdigits hfirst, fun c hc => ?_⟩
  rcases hpart c hc with h | rfl
  · exact hdigits h
  · decide

/-- A number is read back: a minus for a negative one, and the numeral of the
rest. -/
theorem tokens_number (hx : x.Representable) : tokens (Code.number x) = numberTokens x := by
  obtain ⟨cs, htext, hcs⟩ := Decimal.exists_isNumeral hx
  obtain ⟨c, part, rfl, hdigit, -⟩ := hcs.start
  have hliteral : tokensFrom 0 (c :: part) = [.number (.finite ⟨false, x.steps⟩)] :=
    tokensFrom_last (of_isDigit hdigit).2 (readToken_numeral hcs)
  rw [tokens, Code.number, htext, numberTokens]
  by_cases hnegative : x.negative = true
  · simp only [hnegative, if_true, List.cons_append, List.nil_append]
    rw [tokensFrom_cons (by decide), readToken_minus hdigit]
    exact congrArg (_ :: ·) hliteral
  · simp only [hnegative, Bool.false_eq_true, if_false, List.nil_append]
    exact hliteral

/-! ## Names -/

/-- The characters of a word of a source can all stand in a name. -/
theorem isNamePart_of_isWord (h : Text.IsWord s) : ∀ c ∈ s.toList, isNamePart c = true := by
  intro c hc
  have hword : ∀ b ∈ String.utf8EncodeChar c, Scan.isWordPart b = true := by
    intro b hb
    apply h b
    rw [Text.bytes_eq_flatMap]
    exact List.mem_flatMap_of_mem hc hb
  -- Beyond ASCII all bytes of a character are too large for a word.
  have hascii : c.toNat < 128 := by
    by_contra hlarge
    obtain ⟨b, hb⟩ := List.exists_mem_of_ne_nil _ (String.utf8EncodeChar_ne_nil (c := c))
    have hle := Text.le_of_mem_encode (Nat.not_lt.mp hlarge) hb
    have hpart := hword b hb
    simp only [Scan.isWordPart, Scan.isWordStart, Scan.isDigit, Bool.or_eq_true, Bool.and_eq_true,
      decide_eq_true_eq, beq_iff_eq, UInt8.le_iff_toNat_le] at hpart hle
    rcases hpart with ((hpart | hpart) | rfl) | hpart
    · exact absurd (Nat.le_trans hle hpart.2) (by decide)
    · exact absurd (Nat.le_trans hle hpart.2) (by decide)
    · exact absurd hle (by decide)
    · exact absurd (Nat.le_trans hle hpart.2) (by decide)
  rw [Text.encode_of_ascii hascii] at hword
  have hall : ∀ n < 128, Scan.isWordPart (Char.ofNat n).toUInt8 = true →
      isNamePart (Char.ofNat n) = true := by decide +kernel
  have hname := hall c.toNat hascii
  rw [Char.ofNat_toNat] at hname
  exact hname (hword _ List.mem_cons_self)

/-- The name of a validator is not reserved. -/
theorem ofWord_validatorName (schema : String) :
    Token.ofWord (Code.validatorName schema) = .name (Code.validatorName schema) := by
  -- No keyword and no reserved word begins like the name.
  have hne : ∀ word : String, ("validate".toList.isPrefixOf word.toList) = false →
      Code.validatorName schema ≠ word := by
    rintro word hword rfl
    simp [Code.validatorName] at hword
  have hkeyword : keywords.lookup (Code.validatorName schema) = none := by
    rw [List.lookup_eq_none_iff]
    have hall : ∀ p ∈ keywords, ("validate".toList.isPrefixOf p.1.toList) = false := by decide
    intro p hp
    simpa using hne p.1 (hall p hp)
  have hreserved : Code.isReserved (Code.validatorName schema) = false := by
    have hall : ∀ word ∈ Code.reservedWords,
        ("validate".toList.isPrefixOf word.toList) = false := by decide
    rw [Code.isReserved, Bool.eq_false_iff, ne_eq, List.contains_iff_mem]
    exact fun hmem => hne _ (hall _ hmem) rfl
  rw [Token.ofWord, hkeyword, hreserved]
  rfl

theorem tokens_validatorName {schema : String} (h : Text.IsWord schema) :
    '"' ∉ (Code.validatorName schema).toList ∧
      tokens (Code.validatorName schema) = [.name (Code.validatorName schema)] := by
  have htext : (Code.validatorName schema).toList =
      'v' :: ("alidate".toList ++ schema.toList) := by
    rw [Code.validatorName, String.toList_append]
    rfl
  have hpart : ∀ c ∈ "alidate".toList ++ schema.toList, isNamePart c = true := by
    intro c hc
    rcases List.mem_append.mp hc with hc | hc
    · have hall : "alidate".toList.all isNamePart = true := by decide +kernel
      exact List.all_eq_true.mp hall c hc
    · exact isNamePart_of_isWord h c hc
  constructor
  · rw [htext]
    intro hmem
    rcases List.mem_cons.mp hmem with hquote | hmem
    · cases hquote
    · cases hpart _ hmem
  · have hname : String.ofList ('v' :: ("alidate".toList ++ schema.toList)) =
        Code.validatorName schema := by rw [← htext, String.ofList_toList]
    have hread : readToken 'v' ("alidate".toList ++ schema.toList) =
        (.name (Code.validatorName schema), ("alidate".toList ++ schema.toList).length) := by
      rw [readToken, if_pos (by decide)]
      simp only [List.takeWhile_eq_self_iff.mpr hpart, hname, ofWord_validatorName]
    rw [tokens, htext]
    exact tokensFrom_last (by decide) hread

theorem lexes_validatorName {schema : String} (h : Text.IsWord schema) :
    Lexes (Code.validatorName schema ++ "(")
      [.name (Code.validatorName schema), .mark .parenOpen] := by
  obtain ⟨hquote, htokens⟩ := tokens_validatorName h
  have hlex := lexes_before (c := '(') hquote (by decide)
  rw [htokens] at hlex
  exact hlex

/-! ## Layout -/

theorem lexes_indentation (depth : Nat) : Lexes (Code.indentation depth) [] := by
  intro rest
  rw [Code.indentation, String.toList_ofList]
  induction 2 * depth with
  | zero => rfl
  | succ n ih => exact ih

theorem lexes_newline : Lexes "\n" [] := fun _ => rfl

theorem lexes_lineAt {text : String} (h : Lexes text ts) (depth : Nat) :
    Lexes (Code.lineAt depth text) ts := by
  unfold Code.lineAt
  split
  next hempty =>
    rw [String.isEmpty_iff.mp hempty] at h
    rw [← h.tokens_eq]
    exact lexes_newline
  next => simpa using ((lexes_indentation depth).append h).append lexes_newline

def LexesAs (ps : List Code.Piece) (ts : List Token) : Prop :=
  ∀ depth, Lexes (String.join (Code.renderFrom depth ps)) ts

theorem LexesAs.append {ps qs : List Code.Piece} (hp : LexesAs ps ts)
    (hq : LexesAs qs us) : LexesAs (ps ++ qs) (ts ++ us) := by
  intro depth
  rw [Code.renderFrom_append, String.join_append]
  exact (hp depth).append (hq _)

theorem lexesAs_nil : LexesAs [] [] := fun _ => lexes_empty

theorem lexesAs_piece {text : String} (h : Lexes text ts) {p : Code.Piece}
    (hp : p = .line text ∨ p = .opening text ∨ p = .closing text ∨ p = .reopening text) :
    LexesAs [p] ts := by
  intro depth
  simp only [Code.renderFrom, String.join_cons, String.join_nil, String.append_empty]
  rcases hp with rfl | rfl | rfl | rfl <;> exact lexes_lineAt h _

/-! ## Statements -/

/-- Whether some tokens are those of a statement, whatever follows that does not
extend it. -/
structure Spells (ts : List Token) (s : Stmt) : Prop where
  start : ∃ t rest, ts = t :: rest ∧ t ≠ .mark .braceClose ∧ t ≠ .keyword .otherwise
  read : ∀ fuel rest, ts.length + 16 ≤ fuel → rest.head? ≠ some (.keyword .otherwise) →
    Stmt.read fuel (ts ++ rest) = some (s, rest)

inductive SpellsAll : List Token → List Stmt → Prop
  | nil : SpellsAll [] []
  | cons {us ts : List Token} {s : Stmt} {ss : List Stmt} (first : Spells us s)
      (rest : SpellsAll ts ss) : SpellsAll (us ++ ts) (s :: ss)

namespace SpellsAll

variable {us ts : List Token} {rs ss : List Stmt}

theorem append (hr : SpellsAll us rs) (hs : SpellsAll ts ss) :
    SpellsAll (us ++ ts) (rs ++ ss) := by
  induction hr with
  | nil => exact hs
  | cons first _ ih =>
      rw [List.append_assoc]
      exact .cons first ih

theorem singleton {s : Stmt} (h : Spells ts s) : SpellsAll ts [s] := by
  simpa using SpellsAll.cons h .nil

theorem head_ne (h : SpellsAll ts ss) (rest : List Token) :
    (ts ++ .mark .braceClose :: rest).head? ≠ some (.keyword .otherwise) := by
  cases h with
  | nil => simp
  | cons first _ =>
      obtain ⟨t, us', rfl, -, helse⟩ := first.start
      simpa using helse

/-- Statements in a row are read back, up to the brace that closes them. -/
theorem readAll (h : SpellsAll ts ss) {fuel : Nat} (hfuel : ts.length + 17 ≤ fuel)
    (rest : List Token) :
    Stmt.readAll fuel (ts ++ .mark .braceClose :: rest) = some (ss, rest) := by
  -- A statement takes one unit of fuel and has at least one token.
  induction h generalizing fuel with
  | nil =>
      obtain ⟨fuel, rfl⟩ : ∃ n, fuel = n + 1 := ⟨fuel - 1, by omega⟩
      rfl
  | @cons us ts s ss first later ih =>
      obtain ⟨t, us', hus, hclose, -⟩ := first.start
      rw [List.length_append, hus, List.length_cons] at hfuel
      obtain ⟨fuel, rfl⟩ : ∃ n, fuel = n + 1 := ⟨fuel - 1, by omega⟩
      have hfirst := first.read fuel (ts ++ .mark .braceClose :: rest)
        (by rw [hus, List.length_cons]; omega) (later.head_ne rest)
      have hhead : (us ++ ts ++ Token.mark .braceClose :: rest).head? ≠
          some (.mark .braceClose) := by
        rw [hus]
        simpa using hclose
      rw [Stmt.readAll, if_neg hhead, List.append_assoc, hfirst]
      simp only [Option.bind_eq_bind, Option.bind_some, ih (show ts.length + 17 ≤ fuel by omega)]
      rfl

end SpellsAll

/-- A statement that is read with a fixed amount of fuel. -/
theorem Spells.of_read {s : Stmt} (hclose : t ≠ .mark .braceClose) (helse : t ≠ .keyword .otherwise)
    (h : ∀ fuel rest, Stmt.read (fuel + 16) (t :: ts ++ rest) = some (s, rest)) :
    Spells (t :: ts) s where
  start := ⟨t, ts, rfl, hclose, helse⟩
  read := by
    intro fuel rest hfuel _
    obtain ⟨n, rfl⟩ : ∃ n, fuel = n + 16 := ⟨fuel - 16, by omega⟩
    exact h n rest

theorem SpellsAll.read_block (h : SpellsAll ts ss) {fuel : Nat} (hfuel : ts.length + 18 ≤ fuel)
    (rest : List Token) :
    Stmt.read fuel (.mark .braceOpen :: (ts ++ .mark .braceClose :: rest)) =
      some (.block ss, rest) := by
  obtain ⟨fuel, rfl⟩ : ∃ n, fuel = n + 1 := ⟨fuel - 1, by omega⟩
  rw [Stmt.read, h.readAll (by omega)]
  rfl

theorem Spells.block (h : SpellsAll ts ss) :
    Spells (.mark .braceOpen :: (ts ++ [.mark .braceClose])) (.block ss) where
  start := ⟨_, _, rfl, by decide, by decide⟩
  read := by
    intro fuel rest hfuel _
    simp only [List.length_append, List.length_cons, List.length_nil] at hfuel
    rw [List.cons_append, List.append_assoc, List.singleton_append]
    exact h.read_block (by omega) rest

/-- Whether some tokens are those of a test, up to the closing parenthesis. -/
def SpellsTest (ts : List Token) (e : Expr) : Prop :=
  ∀ fuel rest, ts.length + 16 ≤ fuel →
    Expr.readUpTo fuel .parenClose (ts ++ .mark .parenClose :: rest) = some (e, rest)

theorem SpellsTest.of_read
    (h : ∀ fuel rest, Expr.readUpTo (fuel + 16) .parenClose (ts ++ .mark .parenClose :: rest) =
      some (e, rest)) : SpellsTest ts e := by
  intro fuel rest hfuel
  obtain ⟨n, rfl⟩ : ∃ n, fuel = n + 16 := ⟨fuel - 16, by omega⟩
  exact h n rest

/-- A condition without a second half, which is read as one with nothing in
it. -/
theorem Spells.condition {s : Stmt} (he : SpellsTest ts e) (hs : Spells us s) :
    Spells (.keyword .condition :: .mark .parenOpen :: (ts ++ .mark .parenClose :: us))
      (.condition e s (.block [])) where
  start := ⟨_, _, rfl, by decide, by decide⟩
  read := by
    intro fuel rest hfuel hrest
    simp only [List.length_append, List.length_cons] at hfuel
    obtain ⟨fuel, rfl⟩ : ∃ n, fuel = n + 1 := ⟨fuel - 1, by omega⟩
    have htest := he fuel (us ++ rest) (by omega)
    have hbranch := hs.read fuel rest (by omega) hrest
    simp only [List.cons_append, List.append_assoc, Stmt.read, htest, Option.bind_eq_bind,
      Option.bind_some, hbranch]
    -- What follows is not taken for a second half.
    cases rest with
    | nil => rfl
    | cons t rest =>
        have ht : t ≠ .keyword .otherwise := by simpa using hrest
        split
        next heq => exact absurd (List.cons.inj heq).1 ht
        next => rfl

theorem Spells.otherwise {vs : List Token} {rs : List Stmt} (he : SpellsTest ts e)
    (hr : SpellsAll us rs) (hs : SpellsAll vs ss) :
    Spells (.keyword .condition :: .mark .parenOpen :: (ts ++ .mark .parenClose ::
        .mark .braceOpen :: (us ++ .mark .braceClose :: .keyword .otherwise :: .mark .braceOpen ::
        (vs ++ [.mark .braceClose]))))
      (.condition e (.block rs) (.block ss)) where
  start := ⟨_, _, rfl, by decide, by decide⟩
  read := by
    intro fuel rest hfuel hrest
    simp only [List.length_append, List.length_cons, List.length_nil] at hfuel
    obtain ⟨fuel, rfl⟩ : ∃ n, fuel = n + 1 := ⟨fuel - 1, by omega⟩
    have htest := he fuel
    have hyes := hr.read_block (show us.length + 18 ≤ fuel by omega)
    have hno := hs.read_block (show vs.length + 18 ≤ fuel by omega) rest
    simp only [List.cons_append, List.append_assoc, List.nil_append]
    rw [Stmt.read, htest _ (by omega)]
    simp only [Option.bind_eq_bind, Option.bind_some, hyes, hno]
    rfl

end BlockLang.Script
