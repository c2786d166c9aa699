import BlockLang.Proofs.ErrorReports
import BlockLang.Proofs.JsonTexts
import BlockLang.Code.Literal

/-! # Lists of string literals read back

A list of texts is written as a bracketed list of quoted literals. Every text is read back from its
literal, whatever characters it holds and whatever follows, because a quote inside a literal has an
odd number of backslashes before it and the closing quote an even one. So the whole list is read
back as an array of JSON.
-/

namespace BlockLang

namespace Text

/-! ## Characters between quotes -/

def IsVerbatim (c : Char) : Prop := c ≠ '"' ∧ c ≠ '\\' ∧ 0x20 ≤ c.toNat

instance (c : Char) : Decidable (IsVerbatim c) := inferInstanceAs (Decidable (_ ∧ _ ∧ _))

theorem isVerbatim_hexDigit (n : Nat) : IsVerbatim (hexDigit n) := by
  have hdigits : ∀ k < 16, (Nat.toDigits 16 k).headD '0' ≠ '"' ∧
      (Nat.toDigits 16 k).headD '0' ≠ '\\' ∧ 0x20 ≤ ((Nat.toDigits 16 k).headD '0').toNat := by
    decide
  exact hdigits (n % 16) (Nat.mod_lt n (by decide))

/-- A character between quotes is itself, or a backslash with a quote, another
backslash or characters that are written as they are behind it. -/
theorem escapeChar_cases (c : Char) :
    (IsVerbatim c ∧ escapeChar c = [c]) ∨
      (escapeChar c = ['\\', '"'] ∨ escapeChar c = ['\\', '\\']) ∨
      ∃ d rest, (∀ e ∈ d :: rest, IsVerbatim e) ∧ escapeChar c = '\\' :: d :: rest := by
  have hletter : ∀ d : Char, IsVerbatim d →
      ∃ e rest, (∀ x ∈ e :: rest, IsVerbatim x) ∧ ['\\', d] = '\\' :: e :: rest :=
    fun d hd => ⟨d, [], by simpa using hd, rfl⟩
  fun_cases escapeChar c with
  | case1 => exact .inr (.inl (.inl rfl))
  | case2 => exact .inr (.inl (.inr rfl))
  | case3 => exact .inr (.inr (hletter 'n' (by decide)))
  | case4 => exact .inr (.inr (hletter 'r' (by decide)))
  | case5 => exact .inr (.inr (hletter 't' (by decide)))
  | case6 => exact .inr (.inr (hletter 'b' (by decide)))
  | case7 => exact .inr (.inr (hletter 'f' (by decide)))
  | case8 =>
      refine .inr (.inr ⟨'u', _, ?_, rfl⟩)
      have hfirst : IsVerbatim 'u' ∧ IsVerbatim '0' := by decide
      simp [hfirst, isVerbatim_hexDigit]
  | case9 hquote hslash _ _ _ _ _ hcontrol =>
      exact .inl ⟨⟨hquote, hslash, Nat.not_lt.mp hcontrol⟩, rfl⟩

theorem le_of_mem_escapeChar {c d : Char} (h : d ∈ escapeChar c) : 0x20 ≤ d.toNat := by
  rcases escapeChar_cases c with ⟨hc, heq⟩ | (heq | heq) | ⟨e, rest, hplain, heq⟩
  · rw [heq, List.mem_singleton] at h
    exact h ▸ hc.2.2
  · simp only [heq, List.mem_cons, List.not_mem_nil, or_false] at h
    rcases h with rfl | rfl <;> decide
  · simp only [heq, List.mem_cons, List.not_mem_nil, or_false, or_self] at h
    subst h
    decide
  · rw [heq] at h
    rcases List.mem_cons.mp h with rfl | hmem
    · decide
    · exact (hplain d hmem).2.2

/-- No control character stands between quotes or in them, as all of these are
escaped. -/
theorem le_of_mem_quoted {s : String} {c : Char} (h : c ∈ (quoted s).toList) : 0x20 ≤ c.toNat := by
  simp only [quoted, String.toList_ofList, List.cons_append, List.mem_cons, List.mem_append,
    List.not_mem_nil, or_false] at h
  rcases h with rfl | hmem | rfl
  · decide
  · obtain ⟨d, -, hd⟩ := List.mem_flatMap.mp hmem
    exact le_of_mem_escapeChar hd
  · decide

/-! ## The closing quote -/

/-- How many backslashes stand at the end of some characters. -/
def slashesAtEnd (cs : List Char) : Nat := (cs.reverse.takeWhile (· == '\\')).length

/-- Whether a quote that is not escaped stands at an index: one with an even
number of backslashes directly before it. -/
def BareQuoteAt (cs : List Char) (i : Nat) : Prop :=
  cs[i]? = some '"' ∧ slashesAtEnd (cs.take i) % 2 = 0

instance (cs : List Char) (i : Nat) : Decidable (BareQuoteAt cs i) :=
  inferInstanceAs (Decidable (_ ∧ _))

/-- Whether some characters begin with a quote and the next quote that is not
escaped stands at an index. -/
structure ClosesAt (cs : List Char) (i : Nat) : Prop where
  opens : cs.head? = some '"'
  behind : 0 < i
  closes : BareQuoteAt cs i
  first : ∀ j, 0 < j → j < i → ¬ BareQuoteAt cs j

theorem slashesAtEnd_append_slash (cs : List Char) :
    slashesAtEnd (cs ++ ['\\']) = slashesAtEnd cs + 1 := by
  simp [slashesAtEnd]

theorem slashesAtEnd_append {c : Char} (hc : c ≠ '\\') (cs : List Char) :
    slashesAtEnd (cs ++ [c]) = 0 := by
  simp [slashesAtEnd, hc]

theorem slashesAtEnd_append_verbatim {d : Char} {rest : List Char}
    (h : ∀ e ∈ d :: rest, IsVerbatim e) (cs : List Char) : slashesAtEnd (cs ++ d :: rest) = 0 := by
  have hlast := h _ (List.getLast_mem (List.cons_ne_nil d rest))
  rw [← List.dropLast_append_getLast (List.cons_ne_nil d rest), ← List.append_assoc]
  exact slashesAtEnd_append hlast.2.1 _

section

variable {before : List Char} (hbefore : slashesAtEnd before % 2 = 0)

include hbefore

/-- Backslashes are written in pairs, unless they escape what follows, and then
something else ends the character. -/
theorem slashesAtEnd_escapeChar (c : Char) : slashesAtEnd (before ++ escapeChar c) % 2 = 0 := by
  rcases escapeChar_cases c with ⟨hc, heq⟩ | (heq | heq) | ⟨d, rest, hplain, heq⟩
  · rw [heq, slashesAtEnd_append hc.2.1]
  · have hsplit : before ++ ['\\', '"'] = before ++ ['\\'] ++ ['"'] := by simp
    rw [heq, hsplit, slashesAtEnd_append (by decide)]
  · have hsplit : before ++ ['\\', '\\'] = before ++ ['\\'] ++ ['\\'] := by simp
    rw [heq, hsplit, slashesAtEnd_append_slash, slashesAtEnd_append_slash]
    omega
  · have hsplit : before ++ '\\' :: d :: rest = before ++ ['\\'] ++ d :: rest := by simp
    rw [heq, hsplit, slashesAtEnd_append_verbatim hplain]

/-- An escaped text ends in an even number of backslashes, so the quote behind
it is not escaped. -/
theorem slashesAtEnd_escape (cs : List Char) : slashesAtEnd (before ++ escape cs) % 2 = 0 := by
  induction cs generalizing before with
  | nil => simpa [escape] using hbefore
  | cons c cs ih =>
      rw [escape, List.flatMap_cons, ← List.append_assoc]
      exact ih (slashesAtEnd_escapeChar hbefore c)

/-- A quote in an escaped character has one backslash more before it than what
was there, so it is escaped. -/
theorem not_bareQuoteAt_escapeChar {c : Char} {k : Nat} (hk : k < (escapeChar c).length)
    (rest : List Char) : ¬ BareQuoteAt (before ++ (escapeChar c ++ rest)) (before.length + k) := by
  rintro ⟨hquote, heven⟩
  rw [List.getElem?_append_right (Nat.le_add_right _ _), Nat.add_sub_cancel_left,
    List.getElem?_append_left hk] at hquote
  have hmem : '"' ∈ escapeChar c := List.mem_of_getElem? hquote
  rcases escapeChar_cases c with ⟨hc, heq⟩ | (heq | heq) | ⟨d, tail, hplain, heq⟩
  · rw [heq, List.mem_singleton] at hmem
    exact hc.1 hmem.symm
  · -- The quotation mark is escaped by the backslash before it, and the run before that is even.
    rw [heq] at hk hquote heven
    obtain rfl : k = 1 := by
      match k, hk with
      | 0, _ => cases hquote
      | 1, _ => rfl
    have htake : (before ++ (['\\', '"'] ++ rest)).take (before.length + 1) =
        before ++ ['\\'] := by
      rw [List.take_length_add_append]
      rfl
    rw [htake, slashesAtEnd_append_slash] at heven
    omega
  · rw [heq] at hmem
    revert hmem
    decide
  · rw [heq] at hmem
    rcases List.mem_cons.mp hmem with hslash | hmem
    · revert hslash
      decide
    · exact (hplain _ hmem).1 rfl

/-- No quote of an escaped text is bare, by induction on its characters. -/
theorem not_bareQuoteAt_escape {cs : List Char} {k : Nat} (hk : k < (escape cs).length)
    (rest : List Char) : ¬ BareQuoteAt (before ++ (escape cs ++ rest)) (before.length + k) := by
  induction cs generalizing before k with
  | nil => exact absurd hk (Nat.not_lt_zero k)
  | cons c cs ih =>
      rw [escape, List.flatMap_cons, ← escape] at hk ⊢
      rw [List.length_append] at hk
      rw [List.append_assoc]
      by_cases hfirst : k < (escapeChar c).length
      · exact not_bareQuoteAt_escapeChar hbefore hfirst _
      · have hlater := ih (slashesAtEnd_escapeChar hbefore c)
          (by omega : k - (escapeChar c).length < (escape cs).length)
        have hindex : (before ++ escapeChar c).length + (k - (escapeChar c).length) =
            before.length + k := by
          rw [List.length_append]
          omega
        rwa [hindex, List.append_assoc] at hlater

end

/-- The last character of a literal is the first quote behind its first one that
is not escaped, whatever follows the literal. -/
theorem closesAt_quoted (s : String) (rest : List Char) :
    ClosesAt ((quoted s).toList ++ rest) ((quoted s).toList.length - 1) := by
  have htext : (quoted s).toList ++ rest = ['"'] ++ (escape s.toList ++ '"' :: rest) := by
    simp [quoted]
  have hlength : (quoted s).toList.length - 1 = 1 + (escape s.toList).length := by
    simp only [quoted, String.toList_ofList, List.cons_append, List.length_cons,
      List.length_append, List.length_nil]
    omega
  -- No backslash stands before the text, so every run inside starts there.
  have hopen : slashesAtEnd ['"'] % 2 = 0 := rfl
  rw [htext, hlength]
  refine ⟨rfl, by omega, ⟨?_, ?_⟩, ?_⟩
  · have hindex : 1 + (escape s.toList).length = (['"'] ++ escape s.toList).length := by
      rw [List.length_append, List.length_singleton]
    rw [← List.append_assoc, hindex, List.getElem?_append_right (Nat.le_refl _), Nat.sub_self]
    rfl
  · have htake : (['"'] ++ (escape s.toList ++ '"' :: rest)).take (1 + (escape s.toList).length) =
        ['"'] ++ escape s.toList := by
      rw [← List.append_assoc]
      exact List.take_left' (by rw [List.length_append, List.length_singleton])
    rw [htake]
    exact slashesAtEnd_escape hopen s.toList
  · intro j hpos hlt
    have hnot := not_bareQuoteAt_escape hopen
      (by omega : j - 1 < (escape s.toList).length) ('"' :: rest)
    have hindex : ['"'].length + (j - 1) = j := by
      rw [List.length_singleton]
      omega
    rwa [hindex] at hnot

end Text

/-! ## Lists of literals -/

namespace Code

theorem toList_strings (values : List String) (rest : List Char) :
    (strings values).toList ++ rest =
      '[' :: ((String.intercalate ", " (values.map string)).toList ++ ']' :: rest) := by
  simp [strings]

theorem toList_intercalate (value second : String) (values : List String) (rest : List Char) :
    (String.intercalate ", " ((value :: second :: values).map string)).toList ++ rest =
      (string value).toList ++ (',' :: ' ' ::
        ((String.intercalate ", " ((second :: values).map string)).toList ++ rest)) := by
  rw [List.map_cons, List.map_cons, String.intercalate_cons_cons, String.toList_append,
    String.toList_append, List.append_assoc, List.append_assoc]
  rfl

end Code

/-! ## Lists of literals as JSON -/

namespace Json

namespace Syntax

variable {e : Expecting} {outer : List Frame}

theorem run?_string (he : e = .value ∨ e = .valueOrClose) (value : String) (items : List Syntax)
    (rest : List Char) :
    Reader.run? ⟨.array items :: outer, e⟩ ((Code.string value).toList ++ rest) =
      Reader.run? ⟨.array (.string (some value) :: items) :: outer, .commaOrClose⟩ rest := by
  rcases he with rfl | rfl
  · exact run?_lexeme (lexemes?_quoted value rest) rfl
  · exact run?_lexeme (lexemes?_quoted value rest) rfl

/-- The items of an array pile up in reverse while the reader takes one literal
and one comma after another. -/
theorem run?_strings (he : e = .value ∨ e = .valueOrClose) (value : String) (values : List String)
    (items : List Syntax) (rest : List Char) :
    Reader.run? ⟨.array items :: outer, e⟩
        ((String.intercalate ", " ((value :: values).map Code.string)).toList ++ rest) =
      Reader.run? ⟨.array (((value :: values).map fun v => .string (some v)).reverse ++ items) ::
        outer, .commaOrClose⟩ rest := by
  induction values generalizing value items e with
  | nil => simpa using run?_string he value items rest
  | cons second values ih =>
      rw [Code.toList_intercalate, run?_string he, run?_lexeme (lexemes?_mark rfl rfl) rfl,
        run?_of_lexemes? (lexemes?_space rfl _), ih (.inl rfl)]
      simp

theorem read?_strings (values : List String) :
    read? (Code.strings values) = some (.array (values.map fun v => .string (some v))) := by
  have htext := Code.toList_strings values []
  rw [List.append_nil] at htext
  have hend : ∀ (e : Expecting) (items : List Syntax), e = .valueOrClose ∨ e = .commaOrClose →
      Reader.run? ⟨[.array items], e⟩ [']'] = some ⟨[], .finished (.array items.reverse)⟩ := by
    intro e items he
    have hnext : Reader.next? ⟨[.array items], e⟩ .closeArray =
        some ⟨[], .finished (.array items.reverse)⟩ := by
      rcases he with rfl | rfl <;> rfl
    rw [run?_lexeme (lexemes?_mark rfl rfl) hnext, Reader.run?, lexemes?]
    rfl
  have hrun : Reader.run? ⟨[], .value⟩ (Code.strings values).toList =
      some ⟨[], .finished (.array (values.map fun v => .string (some v)))⟩ := by
    rw [htext, run?_lexeme (lexemes?_mark rfl rfl) rfl]
    cases values with
    | nil => simpa using hend .valueOrClose [] (.inl rfl)
    | cons value values =>
        rw [run?_strings (.inr rfl), hend _ _ (.inr rfl)]
        simp
  exact read?_of_run? hrun

theorem itemsToJson?_strings (values : List String) :
    itemsToJson? (values.map fun v => .string (some v)) = some (values.map .text) := by
  induction values with
  | nil => rfl
  | cons value values ih =>
      rw [List.map_cons, itemsToJson?, ih]
      rfl

theorem depthOfItems_strings (values : List String) :
    depthOfItems (values.map fun v => .string (some v)) = 0 := by
  induction values with
  | nil => rfl
  | cons value values ih => rw [List.map_cons, depthOfItems, depth, ih, Nat.max_self]

end Syntax

/-- A list of literals is a JSON array of its texts. -/
theorem read?_strings (values : List String) :
    read? (Code.strings values) = some (.array (values.map .text)) := by
  rw [read?, Syntax.read?_strings, Option.bind_eq_bind, Option.bind_some, Syntax.depth,
    Syntax.depthOfItems_strings, if_pos (by decide), Syntax.toJson?,
    Syntax.itemsToJson?_strings]
  rfl

end Json

namespace Code

/-! ## Literals of generated code -/

/-- Two texts have two literals, as each text is read back from its own. -/
theorem string_injective : Function.Injective string := by
  intro s s' h
  have hread := Json.read?_strings [s]
  have htext : strings [s] = strings [s'] := by simp only [strings, List.map_cons, List.map_nil, h]
  rw [htext, Json.read?_strings] at hread
  simpa using hread.symm

theorem le_of_mem_intercalate {values : List String} {c : Char}
    (h : c ∈ (String.intercalate ", " (values.map string)).toList) : 0x20 ≤ c.toNat := by
  induction values with
  | nil => simp at h
  | cons value values ih =>
      cases values with
      | nil => exact Text.le_of_mem_quoted (s := value) (by simpa [string] using h)
      | cons second values =>
          have htext := toList_intercalate value second values []
          rw [List.append_nil, List.append_nil] at htext
          rw [htext, List.mem_append, List.mem_cons, List.mem_cons] at h
          rcases h with hfirst | rfl | rfl | hmore
          · exact Text.le_of_mem_quoted hfirst
          · decide
          · decide
          · exact ih hmore

theorem le_of_mem_strings {values : List String} {c : Char} (h : c ∈ (strings values).toList) :
    0x20 ≤ c.toNat := by
  have htext := toList_strings values []
  rw [List.append_nil] at htext
  rw [htext, List.mem_cons, List.mem_append, List.mem_singleton] at h
  rcases h with rfl | hmem | rfl
  · decide
  · exact le_of_mem_intercalate hmem
  · decide

/-- A list of literals is one line, since no newline gets into it. -/
theorem lines_strings (values : List String) : Text.lines (strings values) = [strings values] := by
  have hnewline : '\n' ∉ (strings values).toList := fun h =>
    absurd (le_of_mem_strings h) (by decide)
  have hne : (strings values).toList ≠ [] := by simp [strings]
  have hlines := Text.linesFrom_append hnewline [] []
  rw [List.append_nil, List.append_nil, Text.linesFrom, if_neg (by simpa using hne),
    List.reverse_reverse] at hlines
  rw [Text.lines, hlines, List.map_singleton, String.ofList_toList]

/-- Literals decode to what was encoded. The text of a list of texts is one line
without control characters, and as JSON it is the array of these texts. Two
texts have two literals; no literal has a control character, and each ends in
the first quote behind its opening one that is not escaped, whatever follows
it. -/
theorem strings_decode :
    (∀ values : List String, Text.lines (strings values) = [strings values] ∧
      (∀ c ∈ (strings values).toList, 0x20 ≤ c.toNat) ∧
      Json.read? (strings values) = some (.array (values.map .text))) ∧
    Function.Injective string ∧
    ∀ value : String, (∀ c ∈ (string value).toList, 0x20 ≤ c.toNat) ∧
      ∀ rest, Text.ClosesAt ((string value).toList ++ rest) ((string value).toList.length - 1) := by
  refine ⟨fun values => ⟨lines_strings values, fun c hc => le_of_mem_strings hc,
    Json.read?_strings values⟩, string_injective, ?_⟩
  exact fun value => ⟨fun c hc => Text.le_of_mem_quoted hc, Text.closesAt_quoted value⟩

end Code

end BlockLang
