import BlockLang.Proofs.AbsolutePositions
import BlockLang.Proofs.Literals

/-! # Tokens and the source

A source is cut into pieces that cover it without gaps: tokens, comments, and bytes that start
neither. The tokens of the source are those among its pieces.
-/

namespace BlockLang

namespace Scan

/-! ## Pieces of a source -/

inductive Piece where
  | token (kind : Token.Kind) (text : String)
  | comment
  /-- A byte that starts neither a token nor a comment. -/
  | stray
  deriving DecidableEq, Repr

def Piece.token? : Piece → Option (Token.Kind × String)
  | token kind text => some (kind, text)
  | comment | stray => none

/-- Whether a byte starts neither a token nor a comment, given the bytes that
follow it. -/
structure StartsNothing (b : UInt8) (rest : List UInt8) : Prop where
  word : isWordStart b = false
  digit : isDigit b = false
  quote : b ≠ '"'.toUInt8
  mark : ∀ m : Mark, Text.bytes m.spelling ≠ [b]
  arrow : b = '='.toUInt8 → rest.head? ≠ some '>'.toUInt8
  minus : b = '-'.toUInt8 → rest.head?.any isDigit = false
  slash : b = '/'.toUInt8 → rest.head? ≠ some '/'.toUInt8 ∧ rest.head? ≠ some '*'.toUInt8

/-- How the pieces of a source are written, given the bytes that follow them. -/
inductive Written : Piece → List UInt8 → List UInt8 → Prop
  | word {text : String} {rest : List UInt8} (h : Longest Word (Text.bytes text) rest) :
      Written (.token (.ofWord text) text) (Text.bytes text) rest
  | number {text : String} {rest : List UInt8} (h : Longest Numeral (Text.bytes text) rest) :
      Written (.token .number text) (Text.bytes text) rest
  | mark (m : Mark) (rest : List UInt8) :
      Written (.token (.mark m) m.spelling) (Text.bytes m.spelling) rest
  | string {raw ending rest text : List Char} {closed : Bool} (h : Interior raw text)
      (hending : Ending ending rest closed) :
      Written (.token (if closed then .string else .unterminated) (String.ofList text))
        ('"'.toUInt8 :: Text.bytes (String.ofList (raw ++ ending)))
        (Text.bytes (String.ofList rest))
  | lineComment {inside rest : List UInt8} (hinside : '\n'.toUInt8 ∉ inside)
      (hrest : rest = [] ∨ rest.head? = some '\n'.toUInt8) :
      Written .comment ('/'.toUInt8 :: '/'.toUInt8 :: inside) rest
  | blockComment {inside : List UInt8} (hinside : ¬ ['*'.toUInt8, '/'.toUInt8] <:+: inside)
      (rest : List UInt8) :
      Written .comment
        ('/'.toUInt8 :: '*'.toUInt8 :: (inside ++ ['*'.toUInt8, '/'.toUInt8])) rest
  /-- A comment that is never closed runs to the end of the source. -/
  | openComment {inside : List UInt8} (hinside : ¬ ['*'.toUInt8, '/'.toUInt8] <:+: inside) :
      Written .comment ('/'.toUInt8 :: '*'.toUInt8 :: inside) []
  | stray {b : UInt8} {rest : List UInt8} (h : StartsNothing b rest) : Written .stray [b] rest

def Chunk.Takes (chunk : Chunk) (bs : List UInt8) : Prop :=
  ∃ piece taken after, bs = taken ++ after ∧ taken.length = chunk.more + 1 ∧
    Written piece taken after ∧ piece.token? = chunk.token

variable {rest after before : List UInt8} {b : UInt8} {m : Mark}

theorem takes_lineComment (h : rest.head? = some '/'.toUInt8) :
    (Chunk.skip (toLineEnd rest)).Takes ('/'.toUInt8 :: rest) := by
  obtain ⟨tail, rfl⟩ := List.head?_eq_some_iff.mp h
  refine ⟨.comment, '/'.toUInt8 :: '/'.toUInt8 :: tail.takeWhile (· != '\n'.toUInt8),
    tail.dropWhile (· != '\n'.toUInt8), ?_, ?_, .lineComment ?_ ?_, rfl⟩
  · rw [List.cons_append, List.cons_append, List.takeWhile_append_dropWhile]
  · rfl
  · intro hmem
    exact absurd (List.mem_takeWhile_imp hmem) (by decide)
  · cases hrest : tail.dropWhile (· != '\n'.toUInt8) with
    | nil => exact .inl rfl
    | cons b after =>
        have hb := List.head?_dropWhile_not (· != '\n'.toUInt8) tail
        rw [hrest] at hb
        refine .inr (congrArg some ?_)
        simpa using hb

/-- A comment runs to the first mark that closes it, or to the end of the source
if none does. -/
theorem exists_toCommentEnd (bs : List UInt8) :
    (∃ inside rest, bs = inside ++ '*'.toUInt8 :: '/'.toUInt8 :: rest ∧
      ¬ ['*'.toUInt8, '/'.toUInt8] <:+: inside ∧ toCommentEnd bs = inside.length + 2) ∨
    (¬ ['*'.toUInt8, '/'.toUInt8] <:+: bs ∧ toCommentEnd bs = bs.length) := by
  fun_induction toCommentEnd bs with
  | case1 => exact .inr ⟨by simp, rfl⟩
  | case2 b => exact .inr ⟨by simp [List.infix_cons_iff], rfl⟩
  | case3 a b rest h =>
      obtain ⟨rfl, rfl⟩ := h
      exact .inl ⟨[], rest, rfl, by simp, rfl⟩
  -- The mark may straddle the first byte and the rest, which the test that failed rules out.
  | case4 a b rest h ih =>
      rcases ih with ⟨inside, after, hsplit, hinside, hend⟩ | ⟨hinside, hend⟩
      · refine .inl ⟨a :: inside, after, by rw [hsplit, List.cons_append], ?_, by
          rw [hend, List.length_cons]⟩
        rw [List.infix_cons_iff]
        rintro (hfirst | hlater)
        · cases inside with
          | nil => simp at hfirst
          | cons c inside =>
              obtain ⟨rfl, -⟩ := List.cons.inj hsplit
              simp only [List.cons_prefix_cons] at hfirst
              exact h ⟨hfirst.1.symm, hfirst.2.1.symm⟩
        · exact hinside hlater
      · refine .inr ⟨?_, by rw [hend]; rfl⟩
        rw [List.infix_cons_iff]
        rintro (hfirst | hlater)
        · simp only [List.cons_prefix_cons] at hfirst
          exact h ⟨hfirst.1.symm, hfirst.2.1.symm⟩
        · exact hinside hlater

theorem takes_blockComment (h : rest.head? = some '*'.toUInt8) :
    (Chunk.skip (1 + toCommentEnd rest.tail)).Takes ('/'.toUInt8 :: rest) := by
  obtain ⟨tail, rfl⟩ := List.head?_eq_some_iff.mp h
  rw [List.tail_cons]
  rcases exists_toCommentEnd tail with ⟨inside, after, rfl, hinside, hend⟩ | ⟨hinside, hend⟩
  · refine ⟨.comment, _, after, ?_, ?_, .blockComment hinside after, rfl⟩
    · simp
    · simp only [hend, Chunk.skip, List.length_cons, List.length_append, List.length_nil]
      omega
  · refine ⟨.comment, _, [], ?_, ?_, .openComment hinside, rfl⟩
    · simp
    · simp only [hend, Chunk.skip, List.length_cons]
      omega

theorem takes_arrow (h : rest.head? = some '>'.toUInt8) :
    Chunk.Takes ⟨some (.mark .arrow, Mark.arrow.spelling), 1⟩ ('='.toUInt8 :: rest) := by
  obtain ⟨tail, rfl⟩ := List.head?_eq_some_iff.mp h
  exact ⟨_, _, tail, rfl, rfl, .mark .arrow tail, rfl⟩

/-- A quote with what follows is a string, closed or cut off. -/
theorem takes_string (r : String) :
    (Chunk.ofQuotation (quotation (Text.bytes r))).Takes ('"'.toUInt8 :: Text.bytes r) := by
  obtain ⟨raw, ending, rest, text, closed, hr, hinterior, hending⟩ := exists_interior r.toList
  have hbytes : Text.bytes r = Text.bytes (String.ofList (raw ++ ending)) ++
      Text.bytes (String.ofList rest) := by
    rw [Text.bytes_eq_flatMap, hr, Text.bytes_ofList, Text.bytes_ofList, List.flatMap_append]
  have hquotation : quotation (Text.bytes r) = ⟨Text.bytes (String.ofList text),
      (Text.bytes (String.ofList (raw ++ ending))).length, closed⟩ := by
    rw [Text.bytes_eq_flatMap, hr, List.append_assoc, List.flatMap_append,
      quotation_interior hinterior, quotation_ending hending, Text.bytes_ofList, Text.bytes_ofList,
      List.flatMap_append, List.length_append, Quotation.append, List.append_nil]
  refine ⟨_, _, _, ?_, ?_, .string hinterior hending, ?_⟩
  · rw [hbytes, List.cons_append]
  · rw [hquotation]
    rfl
  · rw [hquotation, Chunk.ofQuotation, Text.ofBytes_bytes]
    rfl

/-- A chunk that stands for itself takes the bytes of its text, provided that
they are ASCII and make a piece. -/
theorem takes_verbatim {kind : String → Token.Kind} {bs : List UInt8}
    (hascii : ∀ x ∈ b :: bs, x < 128)
    (h : ∀ text, Text.bytes text = b :: bs → Written (.token (kind text) text) (b :: bs) after) :
    (Chunk.verbatim kind b (bs ++ after) bs.length).Takes (b :: (bs ++ after)) := by
  refine ⟨_, b :: bs, after, rfl, rfl, h _ (Text.bytes_ofBytes hascii), ?_⟩
  rw [Chunk.verbatim, List.take_left]
  rfl

theorem takes_number (h : isDigit b = true ∨ b = '-'.toUInt8 ∧ rest.head?.any isDigit = true) :
    (Chunk.verbatim (fun _ => .number) b rest (toNumberEnd rest)).Takes (b :: rest) := by
  obtain ⟨bs, after, hsplit, hend, hlongest⟩ := longest_numeral h
  rw [hend, hsplit]
  refine takes_verbatim hlongest.whole.lt ?_
  intro text htext
  rw [← htext] at hlongest ⊢
  exact .number hlongest

theorem takes_word (h : isWordStart b = true) (rest : List UInt8) :
    (Chunk.verbatim .ofWord b rest (rest.takeWhile isWordPart).length).Takes (b :: rest) := by
  have hlongest := longest_word h rest
  have hsplit : rest = rest.takeWhile isWordPart ++ rest.dropWhile isWordPart :=
    List.takeWhile_append_dropWhile.symm
  generalize rest.takeWhile isWordPart = bs at *
  generalize rest.dropWhile isWordPart = after at *
  subst hsplit
  refine takes_verbatim (fun x hx => lt_of_isWordPart (hlongest.whole.2 x hx)) ?_
  intro text htext
  rw [← htext] at hlongest ⊢
  exact .word hlongest

theorem spelling_of_markOf? (h : markOf? b = some m) : Text.bytes m.spelling = [b] := by
  revert h
  fun_cases markOf? b with
  | case11 => simp
  | _ =>
      intro h
      obtain rfl := Option.some.inj h
      subst b
      decide

theorem takes_mark (h : markOf? b = some m) (rest : List UInt8) :
    Chunk.Takes ⟨some (.mark m, m.spelling), 0⟩ (b :: rest) := by
  refine ⟨_, _, rest, ?_, ?_, .mark m rest, rfl⟩
  · rw [spelling_of_markOf? h, List.singleton_append]
  · rw [spelling_of_markOf? h]
    rfl

theorem markOf?_of_spelling (h : Text.bytes m.spelling = [b]) : markOf? b = some m := by
  have hmark : (Text.bytes m.spelling).length = 1 →
      (Text.bytes m.spelling).head?.bind markOf? = some m := by
    cases m <;> decide
  rw [h] at hmark
  exact hmark rfl

/-- Every chunk of a text is a piece, by the cases in which the scanner tells
chunks apart. -/
theorem takes_read {s : String}
    (h : Text.bytes s = before ++ b :: rest) : (Chunk.read b rest).Takes (b :: rest) := by
  simp only [Chunk.read]
  split_ifs with hline hblock harrow hquote hnumber hword
  · obtain ⟨rfl, hhead⟩ := hline
    exact takes_lineComment hhead
  · obtain ⟨rfl, hhead⟩ := hblock
    exact takes_blockComment hhead
  · obtain ⟨rfl, hhead⟩ := harrow
    exact takes_arrow hhead
  · subst hquote
    have hmark : Text.bytes "\"" = ['"'.toUInt8] := by decide
    obtain ⟨-, r, -, -, rfl⟩ := Text.exists_split_of_bytes (by decide) hmark h
    exact takes_string r
  · exact takes_number hnumber
  · exact takes_word hword rest
  · split
    next m hm => exact takes_mark hm rest
    next hm =>
      refine ⟨.stray, [b], rest, rfl, rfl, .stray ?_, rfl⟩
      rw [not_or] at hnumber
      exact {
        word := by simpa using hword
        digit := by simpa using hnumber.1
        quote := hquote
        mark := fun m hspelling => by
          rw [markOf?_of_spelling hspelling] at hm
          cases hm
        arrow := fun hb hhead => harrow ⟨hb, hhead⟩
        minus := fun hb => by simpa [hb] using hnumber.2
        slash := fun hb => ⟨fun hhead => hline ⟨hb, hhead⟩, fun hhead => hblock ⟨hb, hhead⟩⟩ }

/-! ## Cutting a source -/

structure Cut where
  piece : Piece
  start : Nat
  stop : Nat
  deriving DecidableEq, Repr

def Cut.token? (source : List UInt8) (cut : Cut) : Option Token :=
  cut.piece.token?.map fun token => ⟨token.1, token.2,
    ⟨cut.start, Position.lineAt source cut.start, Position.columnAt source cut.start⟩⟩

/-- Cuts that follow each other from an offset to the end of a source. -/
structure Covers (source : List UInt8) (start : Nat) (cuts : List Cut) : Prop where
  written : ∀ cut ∈ cuts, Written cut.piece ((source.take cut.stop).drop cut.start)
    (source.drop cut.stop)
  inside : ∀ cut ∈ cuts, start ≤ cut.start ∧ cut.start < cut.stop ∧ cut.stop ≤ source.length
  ordered : cuts.Pairwise fun cut later => cut.stop ≤ later.start
  covered : ∀ offset, start ≤ offset → offset < source.length →
    ∃ cut ∈ cuts, cut.start ≤ offset ∧ offset < cut.stop

theorem covers_nil (source : List UInt8) : Covers source source.length [] where
  written := by simp
  inside := by simp
  ordered := .nil
  covered := fun _ hle hlt => absurd hlt (Nat.not_lt.mpr hle)

/-- A piece in front of cuts that cover the rest. -/
theorem Covers.cons {source taken : List UInt8} {piece : Piece} {cuts : List Cut}
    (hsource : source = before ++ taken ++ after) (hwritten : Written piece taken after)
    (hpos : 0 < taken.length) (h : Covers source (before ++ taken).length cuts) :
    Covers source before.length (⟨piece, before.length, (before ++ taken).length⟩ :: cuts) := by
  have hlength := congrArg List.length hsource
  have hlt : before.length < (before ++ taken).length := by
    rw [List.length_append]
    omega
  refine ⟨List.forall_mem_cons.mpr ⟨?_, h.written⟩, List.forall_mem_cons.mpr ⟨?_, ?_⟩,
    List.pairwise_cons.mpr ⟨fun later hlater => (h.inside later hlater).1, h.ordered⟩, ?_⟩
  · simp only
    rwa [hsource, List.take_left, List.drop_left, List.drop_left]
  · rw [List.length_append] at hlength
    exact ⟨Nat.le_refl _, hlt, by simp only; omega⟩
  · intro later hlater
    obtain ⟨hstart, hinside⟩ := h.inside later hlater
    exact ⟨by omega, hinside⟩
  · intro offset hstart hoffset
    by_cases hcut : offset < (before ++ taken).length
    · exact ⟨_, List.mem_cons_self, hstart, hcut⟩
    · obtain ⟨later, hlater, hbounds⟩ := h.covered offset (Nat.not_lt.mp hcut) hoffset
      exact ⟨later, List.mem_cons_of_mem _ hlater, hbounds⟩

/-- One chunk is one cut: its token, if it is one, stands at its start, and
tokens go on behind it. -/
theorem tokensFrom_chunk {p : Position} {taken : List UInt8} (hsplit : b :: rest = taken ++ after)
    (hlength : taken.length = (Chunk.read b rest).more + 1) :
    tokensFrom p 0 (b :: rest) =
      ((Chunk.read b rest).token.map fun token => ⟨token.1, token.2, p⟩).toList ++
        tokensFrom (p.advance taken) 0 after := by
  cases taken with
  | nil => cases hlength
  | cons c taken =>
      rw [List.cons_append] at hsplit
      obtain ⟨rfl, rfl⟩ := List.cons.inj hsplit
      rw [List.length_cons, Nat.add_right_cancel_iff] at hlength
      simp only [tokensFrom, ← hlength, tokensFrom_length, Position.advance_cons]
      cases (Chunk.read b (taken ++ after)).token <;> rfl

/-- From any chunk on, the pieces that the chunks take cover the source. -/
theorem exists_covers {s : String} {bs : List UInt8} (h : Text.bytes s = before ++ bs) :
    ∃ cuts, Covers (Text.bytes s) before.length cuts ∧
      tokensFrom (Position.ofOffset (Text.bytes s) before.length) 0 bs =
        cuts.filterMap (Cut.token? (Text.bytes s)) := by
  -- A piece may be longer than a byte, so the induction is on how many bytes are left.
  induction hn : bs.length using Nat.strongRecOn generalizing before bs with
  | ind n ih =>
      subst hn
      cases bs with
      | nil =>
          refine ⟨[], ?_, rfl⟩
          rw [List.append_nil] at h
          rw [← h]
          exact covers_nil _
      | cons b rest =>
          obtain ⟨piece, taken, after, hsplit, hlength, hwritten, htoken⟩ := takes_read h
          have hsource : Text.bytes s = before ++ taken ++ after := by
            rw [h, hsplit, List.append_assoc]
          have hshorter : after.length < (b :: rest).length := by
            rw [hsplit, List.length_append]
            omega
          obtain ⟨cuts, hcovers, htokens⟩ := ih after.length hshorter hsource rfl
          have hposition : (Position.ofOffset (Text.bytes s) before.length).advance taken =
              Position.ofOffset (Text.bytes s) (before ++ taken).length := by
            rw [Position.ofOffset, Position.ofOffset, h, List.take_left, ← h, hsource,
              List.take_left, Position.advance_append]
          have hle : before.length ≤ (Text.bytes s).length := by simp [h]
          refine ⟨_, .cons hsource hwritten (by omega) hcovers, ?_⟩
          rw [tokensFrom_chunk hsplit hlength, hposition, htokens, ← htoken, List.filterMap_cons,
            Position.ofOffset_eq hle]
          cases hpiece : piece.token? <;> simp [Cut.token?, hpiece]

/-- A byte that lies in no token and in no comment starts none, given what
follows it in the source. -/
theorem Covers.startsNothing {source : List UInt8} {start offset : Nat} {cuts : List Cut}
    (h : Covers source start cuts) (hstart : start ≤ offset) (hoffset : offset < source.length)
    (hstray : ∀ cut ∈ cuts, cut.start ≤ offset → offset < cut.stop → cut.piece = .stray) :
    ∃ b, source[offset]? = some b ∧ StartsNothing b (source.drop (offset + 1)) := by
  obtain ⟨cut, hcut, hle, hlt⟩ := h.covered offset hstart hoffset
  obtain ⟨-, -, hstop⟩ := h.inside cut hcut
  have hwritten := h.written cut hcut
  rw [hstray cut hcut hle hlt] at hwritten
  generalize hbs : (source.take cut.stop).drop cut.start = bs at hwritten
  generalize hrest : source.drop cut.stop = rest at hwritten
  cases hwritten with
  | @stray b _ hb =>
      have hlength := congrArg List.length hbs
      rw [List.length_drop, List.length_take, List.length_singleton] at hlength
      obtain rfl : cut.start = offset := by omega
      have hone : cut.stop = cut.start + 1 := by omega
      refine ⟨b, ?_, ?_⟩
      · have hfirst := congrArg (·[0]?) hbs
        simpa [List.getElem?_drop, List.getElem?_take, hlt] using hfirst
      · rwa [← hone, hrest]

/-- The tokens of a source are those among pieces that cover it without gaps, so
what lies in none of them lies in a comment or starts nothing. -/
theorem ofSource_covers (s : String) :
    ∃ cuts, Covers (Text.bytes s) 0 cuts ∧
      (Tokens.ofSource (Text.bytes s)).items = cuts.filterMap (Cut.token? (Text.bytes s)) ∧
      ∀ offset < (Text.bytes s).length,
        (∃ cut ∈ cuts, cut.start ≤ offset ∧ offset < cut.stop ∧
          ((Cut.token? (Text.bytes s) cut).isSome = true ∨ cut.piece = .comment)) ∨
        ∃ b, (Text.bytes s)[offset]? = some b ∧
          StartsNothing b ((Text.bytes s).drop (offset + 1)) := by
  obtain ⟨cuts, hcovers, htokens⟩ := exists_covers (List.nil_append (Text.bytes s)).symm
  refine ⟨cuts, hcovers, htokens, ?_⟩
  intro offset hoffset
  by_cases hstray : ∀ cut ∈ cuts, cut.start ≤ offset → offset < cut.stop → cut.piece = .stray
  · exact .inr (hcovers.startsNothing (Nat.zero_le _) hoffset hstray)
  · push Not at hstray
    obtain ⟨cut, hcut, hle, hlt, hpiece⟩ := hstray
    refine .inl ⟨cut, hcut, hle, hlt, ?_⟩
    cases hcase : cut.piece with
    | token kind text => exact .inl (by simp [Cut.token?, Piece.token?, hcase])
    | comment => exact .inr rfl
    | stray => exact absurd hcase hpiece

end Scan

end BlockLang
