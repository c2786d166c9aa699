import BlockLang.Proofs.Completions
import BlockLang.Proofs.Extraction

/-! # What the error of a source says

The error of a source that cannot be read is about the first token that cannot go on: what stands
before this token begins a source that can be read, and with this token behind the same tokens no
source can. The message shows the line of the token.
-/

namespace BlockLang

/-! ## Lines -/

namespace Text

/-- What a line reads with some characters before the rest of the text. A
carriage return right before the newline belongs to the ending. -/
inductive ReadsLine : List Char → List Char → List Char → Prop
  | last (line : List Char) : ReadsLine line [] line
  | newline {line : List Char} (h : line.getLast? ≠ some '\r') (below : List Char) :
      ReadsLine line ('\n' :: below) line
  | crlf (line below : List Char) : ReadsLine (line ++ ['\r']) ('\n' :: below) line

/-- Whether a line is the one around a place in a text: from the last newline
before the place on up to the first one behind it. -/
def LineAround (before after line : String) : Prop :=
  ∃ above start more below, before.toList = above ++ start ∧ after.toList = more ++ below ∧
    (above = [] ∨ above.getLast? = some '\n') ∧ '\n' ∉ start ++ more ∧
      ReadsLine (start ++ more) below line.toList

theorem dropReturn_append (line : List Char) : dropReturn (line ++ ['\r']) = line := by
  simp [dropReturn]

theorem dropReturn_of_ne {line : List Char} (h : line.getLast? ≠ some '\r') :
    dropReturn line = line := by
  unfold dropReturn
  split
  next rest hreverse =>
    rw [← List.head?_reverse, hreverse] at h
    exact absurd rfl h
  next => rfl

theorem linesFrom_append {xs : List Char} (h : '\n' ∉ xs) (line ys : List Char) :
    linesFrom line (xs ++ ys) = linesFrom (xs.reverse ++ line) ys := by
  induction xs generalizing line with
  | nil => rfl
  | cons x xs ih =>
      rw [List.mem_cons, not_or] at h
      obtain ⟨hx, hxs⟩ := h
      rw [List.cons_append, linesFrom, if_neg (Ne.symm hx), ih hxs, List.reverse_cons,
        List.append_assoc]
      rfl

theorem getElem?_linesFrom (line xs ys : List Char) :
    (linesFrom line (xs ++ '\n' :: ys))[xs.count '\n' + 1]? = (linesFrom [] ys)[0]? := by
  induction xs generalizing line with
  | nil => rfl
  | cons x xs ih =>
      rw [List.cons_append, linesFrom]
      by_cases hx : x = '\n'
      · rw [if_pos hx, hx, List.count_cons_self, List.getElem?_cons_succ, ih]
      · rw [if_neg hx, List.count_cons_of_ne hx, ih]

theorem getElem?_linesFrom_above {above : List Char}
    (h : above = [] ∨ above.getLast? = some '\n') (ys : List Char) :
    (linesFrom [] (above ++ ys))[above.count '\n']? = (linesFrom [] ys)[0]? := by
  rcases h with rfl | hlast
  · rfl
  · obtain ⟨xs, rfl⟩ := List.getLast?_eq_some_iff.mp hlast
    rw [List.append_assoc, List.singleton_append, List.count_append, List.count_singleton_self]
    exact getElem?_linesFrom [] xs ys

variable {below : List Char}

/-- The first line of a text is what it reads up to its newline. -/
theorem getElem?_zero_linesFrom {content line : List Char} (hcontent : '\n' ∉ content)
    (h : ReadsLine content below line) :
    (linesFrom [] (content ++ below))[0]? =
      if content = [] ∧ below = [] then none else some line := by
  rw [linesFrom_append hcontent, List.append_nil]
  cases h with
  | last => cases content <;> simp [linesFrom]
  | newline hlast below => simp [linesFrom, dropReturn_of_ne hlast]
  | crlf line below =>
      rw [linesFrom, if_pos rfl, List.reverse_reverse, dropReturn_append, if_neg (by simp)]
      rfl

theorem exists_above (cs : List Char) :
    ∃ above start, cs = above ++ start ∧ (above = [] ∨ above.getLast? = some '\n') ∧
      '\n' ∉ start := by
  induction cs using List.reverseRecOn with
  | nil => exact ⟨[], [], rfl, .inl rfl, List.not_mem_nil⟩
  | append_singleton cs c ih =>
      by_cases hc : c = '\n'
      · refine ⟨cs ++ [c], [], (List.append_nil _).symm, .inr ?_, List.not_mem_nil⟩
        rw [List.getLast?_concat, hc]
      · obtain ⟨above, start, rfl, habove, hstart⟩ := ih
        refine ⟨above, start ++ [c], List.append_assoc _ _ _, habove, ?_⟩
        simp [hstart, Ne.symm hc]

theorem exists_below (cs : List Char) :
    ∃ more below, cs = more ++ below ∧ (below = [] ∨ below.head? = some '\n') ∧ '\n' ∉ more := by
  induction cs with
  | nil => exact ⟨[], [], rfl, .inl rfl, List.not_mem_nil⟩
  | cons c cs ih =>
      by_cases hc : c = '\n'
      · exact ⟨[], c :: cs, rfl, .inr (congrArg some hc), List.not_mem_nil⟩
      · obtain ⟨more, below, rfl, hbelow, hmore⟩ := ih
        refine ⟨c :: more, below, rfl, hbelow, ?_⟩
        simp [hmore, Ne.symm hc]

theorem exists_readsLine (content : List Char)
    (h : below = [] ∨ below.head? = some '\n') : ∃ line, ReadsLine content below line := by
  rcases h with rfl | hhead
  · exact ⟨content, .last content⟩
  · obtain ⟨below, rfl⟩ := List.head?_eq_some_iff.mp hhead
    by_cases hreturn : content.getLast? = some '\r'
    · obtain ⟨line, rfl⟩ := List.getLast?_eq_some_iff.mp hreturn
      exact ⟨line, .crlf line below⟩
    · exact ⟨content, .newline hreturn below⟩

/-- The line around a place is empty and the last exactly if the place is the
end of a text that is empty or ends in a newline. -/
theorem atLineEnd_iff {before after : String} {above start more : List Char}
    (hbefore : before.toList = above ++ start) (hafter : after.toList = more ++ below)
    (habove : above = [] ∨ above.getLast? = some '\n') (hstart : '\n' ∉ start) :
    (start ++ more = [] ∧ below = []) ↔
      after = "" ∧ (before = "" ∨ before.toList.getLast? = some '\n') := by
  rw [← String.toList_eq_nil_iff, ← String.toList_eq_nil_iff, hbefore, hafter]
  constructor
  · rintro ⟨hcontent, rfl⟩
    obtain ⟨rfl, rfl⟩ := List.append_eq_nil_iff.mp hcontent
    refine ⟨rfl, ?_⟩
    rwa [List.append_nil]
  · rintro ⟨hend, hlast⟩
    obtain ⟨rfl, rfl⟩ := List.append_eq_nil_iff.mp hend
    refine ⟨?_, rfl⟩
    rcases hlast with hnil | hlast
    · rw [List.append_nil]
      exact (List.append_eq_nil_iff.mp hnil).2
    · rw [List.append_nil]
      by_contra hne
      rw [List.getLast?_append_of_ne_nil _ hne] at hlast
      exact hstart (List.mem_of_getLast? hlast)

/-- The line around a place in a text stands behind as many lines as there are
newlines before the place. -/
theorem exists_lineAround (before after : String) :
    ∃ line, LineAround before after line ∧
      (lines (before ++ after))[newlines before]? =
        if after = "" ∧ (before = "" ∨ before.toList.getLast? = some '\n') then none
        else some line := by
  obtain ⟨above, start, hbefore, habove, hstart⟩ := exists_above before.toList
  obtain ⟨more, below, hafter, hbelow, hmore⟩ := exists_below after.toList
  obtain ⟨line, hline⟩ := exists_readsLine (start ++ more) hbelow
  have hcontent : '\n' ∉ start ++ more := by simp [hstart, hmore]
  refine ⟨String.ofList line, ⟨above, start, more, below, hbefore, hafter, habove, hcontent, ?_⟩,
    ?_⟩
  · rwa [String.toList_ofList]
  · have hcount : newlines before = above.count '\n' := by
      rw [newlines_eq_count, hbefore, List.count_append, List.count_eq_zero.mpr hstart,
        Nat.add_zero]
    have htext : (before ++ after).toList = above ++ ((start ++ more) ++ below) := by
      rw [String.toList_append, hbefore, hafter, List.append_assoc, List.append_assoc]
    rw [lines, List.getElem?_map, htext, hcount, getElem?_linesFrom_above habove,
      getElem?_zero_linesFrom hcontent hline]
    simp only [atLineEnd_iff hbefore hafter habove hstart]
    split_ifs <;> rfl

end Text

/-! ## Errors -/

namespace Parser

/-- Where reading a source stops: behind these tokens, at the first of `rest` or
at the end. -/
structure StopsAt (s before after : String) (passed used rest : List Token)
    (position : Position) : Prop where
  split : s = before ++ after
  position_eq : position = Position.ofOffset (Text.bytes s) (Text.bytes before).length
  reaches : Reaches (Text.bytes s) passed used rest
  token : ∀ t ∈ rest.head?, t.position = position
  ended : rest = [] ↔ after = ""

variable {s before after : String} {used rest passed : List Token} {e : ParseError}
  {position : Position}

/-- A text can be cut in front of each of its tokens, as tokens start with a
character of one byte. -/
theorem exists_append_of_token {m : Nat} {later : List Token} {t : Token}
    (h : (Tokens.behind (Text.bytes s) m).items = used ++ t :: later) :
    ∃ before after, s = before ++ after ∧
      Text.bytes before = (Text.bytes s).take t.position.offset := by
  obtain ⟨c, tail, hdrop, hread⟩ := Tokens.exists_drop_of_token h
  have hc : c < 128 := by
    by_contra hlt
    exact hread (Scan.read_of_le (UInt8.not_lt.mp hlt) tail)
  have hbytes : Text.bytes s = (Text.bytes s).take t.position.offset ++ c :: tail := by
    rw [← hdrop, List.take_append_drop]
  obtain ⟨before, after, hs, hbefore, -⟩ := Text.exists_append_of_bytes hc hbytes
  exact ⟨before, after, hs, hbefore⟩

/-- A source that cannot be read stops at a token that cannot go on, and what
stands before it can be completed. -/
theorem exists_stopsAt (h : Tree.ofSource s = .error (.parse e)) :
    ∃ before after passed used rest position expected,
      StopsAt s before after passed used rest position ∧ e = unexpected position expected rest ∧
        Begins (Text.bytes before) passed used ∧ BlockHalts used rest e := by
  obtain ⟨tree, mid, first, items, hreads, hmid, herror⟩ := ofBytes_eq_error_iff.mp h
  obtain ⟨passed, hpasses⟩ := hreads.exists_passes
  obtain ⟨used, rest, expected, hsplit, he, hhalts⟩ := failsIn_of_block herror
  rw [← Tokens.behind_zero] at hreads
  obtain ⟨m, rfl⟩ := hreads.exists_behind
  have hitems := hmid.trans hsplit
  -- With no token left the parser stops at the end of the text, else at the next token.
  cases rest with
  | nil =>
      rw [List.append_nil] at hitems hsplit
      obtain rfl := hsplit
      refine ⟨s, "", passed, first :: items, [], _, expected, ⟨String.append_empty.symm, rfl,
        ⟨_, hpasses, ?_⟩, by simp, by simp⟩, ?_, begins_of_end hpasses hhalts.extendable hitems,
        hhalts⟩
      · rw [hitems, List.append_nil]
      · rw [he, Tokens.stop_behind, Position.ofOffset, List.take_length]
  | cons t later =>
      obtain ⟨-, hlt, hposition, -⟩ := Tokens.behind_of_mem hitems
      obtain ⟨before, after, hs, hbefore⟩ := exists_append_of_token hitems
      have hbegins := begins_of_token hpasses hhalts.extendable hitems
      rw [← hbefore] at hbegins
      have hlength : (Text.bytes before).length = t.position.offset := by
        rw [hbefore, List.length_take_of_le (Nat.le_of_lt hlt)]
      rw [← hlength] at hposition
      refine ⟨before, after, passed, used, t :: later, t.position, expected,
        ⟨hs, hposition, ⟨_, hpasses, hitems⟩, ?_, ?_⟩, he, hbegins, hhalts⟩
      · intro t' ht'
        rw [Option.some.inj ht']
      · refine ⟨by simp, ?_⟩
        rintro rfl
        rw [String.append_empty] at hs
        rw [hs] at hlt
        omega

/-- A token that cannot go on behind some tokens cannot in any source, and the
error is the same in all of them. -/
theorem BlockHalts.ofBytes_eq {later : List Token} {t : Token} (h : BlockHalts used rest e)
    (ht : t ∈ rest.head?) {source : List UInt8}
    (hreaches : Reaches source passed used (t :: later)) :
    Tree.ofBytes source = .error (.parse e) := by
  obtain ⟨mid, hpasses, hmid⟩ := hreaches
  obtain ⟨tree, hreads⟩ := hpasses.exists_reads
  cases used with
  | nil =>
      exact ofBytes_eq_error_iff.mpr
        ⟨tree, mid, t, later, hreads, hmid, h.stuck t ht source t later later mid.stop rfl⟩
  | cons first us =>
      exact ofBytes_eq_error_iff.mpr ⟨tree, mid, first, us ++ t :: later, hreads, hmid,
        h.stuck t ht source first _ later mid.stop rfl⟩

/-- The line of the error is the one on which reading stops. -/
theorem StopsAt.line_eq (h : StopsAt s before after passed used rest position)
    (expected : Expectation) :
    (unexpected position expected rest).line = 1 + Text.newlines before := by
  have hposition : position.line = 1 + Text.newlines before := by
    rw [h.position_eq, Position.line_ofOffset, h.split, Text.bytes_append, List.take_left]
    rfl
  cases rest with
  | nil => exact hposition
  | cons t later => exact (congrArg Position.line (h.token t rfl)).trans hposition

theorem StopsAt.atLineEnd_iff (h : StopsAt s before after passed used rest position) (hs : s ≠ "") :
    (after = "" ∧ (before = "" ∨ before.toList.getLast? = some '\n')) ↔
      rest = [] ∧ s.toList.getLast? = some '\n' := by
  rw [h.ended]
  apply and_congr_right
  rintro rfl
  have hsplit := h.split
  rw [String.append_empty] at hsplit
  rw [← hsplit]
  exact or_iff_right hs

/-- The message shows the line around the place where reading stops, with its
number, unless there is no such line. -/
theorem StopsAt.explain (h : StopsAt s before after passed used rest position) (hs : s ≠ "")
    {expected : Expectation} (he : e = unexpected position expected rest) :
    ∃ line, Text.LineAround before after line ∧ SyntaxError.explain (.parse e) s = e.message ++
      if rest = [] ∧ s.toList.getLast? = some '\n' then ""
      else "\n  " ++ SyntaxError.lineNumber e.line ++ " | " ++ line := by
  obtain ⟨line, hline, hlines⟩ := Text.exists_lineAround before after
  refine ⟨line, hline, ?_⟩
  have hnumber : (SyntaxError.parse e).line - 1 = Text.newlines before := by
    rw [SyntaxError.line, he, h.line_eq]
    omega
  simp only [h.atLineEnd_iff hs] at hlines
  rw [← h.split] at hlines
  rw [SyntaxError.explain, hnumber, hlines]
  split_ifs with hend
  · exact String.append_empty.symm
  · simp only [SyntaxError.message, SyntaxError.line, String.append_assoc]

/-- The error of a source is about the first token that cannot go on. What
stands before this token is the beginning of a source that can be read, in which
the same tokens come first. No source can be read in which the token comes
behind these. The message shows the line of the token, and none only at the end
of a source that ends in a newline. -/
theorem ofSource_error_parse {s : String} {e : ParseError}
    (h : Tree.ofSource s = .error (.parse e)) :
    ∃ before after passed used rest position expected line,
      StopsAt s before after passed used rest position ∧ e = unexpected position expected rest ∧
      (∃ text tree more, Tree.ofSource (before ++ text) = .ok tree ∧
        Reaches (Text.bytes (before ++ text)) passed used more) ∧
      (∀ t ∈ rest.head?, ∀ s' later, Reaches (Text.bytes s') passed used (t :: later) →
        Tree.ofSource s' = .error (.parse e)) ∧
      Text.LineAround before after line ∧
      SyntaxError.explain (.parse e) s = e.message ++
        if rest = [] ∧ s.toList.getLast? = some '\n' then ""
        else "\n  " ++ SyntaxError.lineNumber e.line ++ " | " ++ line := by
  obtain ⟨before, after, passed, used, rest, position, expected, hstops, he, hbegins, hhalts⟩ :=
    exists_stopsAt h
  obtain ⟨text, tree, more, htree, hreaches⟩ := hbegins
  have hs : s ≠ "" := by
    rintro rfl
    cases h
  obtain ⟨line, hline, hexplain⟩ := hstops.explain hs he
  rw [← Text.bytes_append] at htree hreaches
  exact ⟨before, after, passed, used, rest, position, expected, line, hstops, he,
    ⟨text, tree, more, htree, hreaches⟩, fun t ht s' later hs' => hhalts.ofBytes_eq ht hs', hline,
    hexplain⟩

/-- Behind a body that hides the start of a comment, on a line that ends in a
carriage return and a newline, a comma stands where a type is expected. -/
theorem ofSource_error_parse_comma :
    Tree.ofSource "do f() \x7b'/*'\x7d\ndata A \x7bx: , y\r\n\x7d" =
        .error (.parse ⟨.typeName, .token (.mark .comma) ",", 2, 12⟩) ∧
      ∃ before after line, "do f() \x7b'/*'\x7d\ndata A \x7bx: , y\r\n\x7d" = before ++ after ∧
        (∃ text tree, Tree.ofSource (before ++ text) = .ok tree) ∧
        Text.LineAround before after line ∧
        SyntaxError.explain (.parse ⟨.typeName, .token (.mark .comma) ",", 2, 12⟩)
            "do f() \x7b'/*'\x7d\ndata A \x7bx: , y\r\n\x7d" =
          "[parser] line 2:12: expected type name, found ',' `,`" ++ "\n     2 | " ++ line := by
  have herror : Tree.ofSource "do f() \x7b'/*'\x7d\ndata A \x7bx: , y\r\n\x7d" =
      .error (.parse ⟨.typeName, .token (.mark .comma) ",", 2, 12⟩) := by
    decide +kernel
  obtain ⟨before, after, passed, used, rest, position, expected, line, hstops, he,
    ⟨text, tree, more, htree, -⟩, -, hline, hexplain⟩ := ofSource_error_parse herror
  refine ⟨herror, before, after, line, hstops.split, ⟨text, tree, htree⟩, hline, ?_⟩
  have hend : "do f() \x7b'/*'\x7d\ndata A \x7bx: , y\r\n\x7d".toList.getLast? ≠ some '\n' := by
    decide
  rw [hexplain, if_neg fun hnone => hend hnone.2]
  rfl

end Parser

end BlockLang
