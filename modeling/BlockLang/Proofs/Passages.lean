import BlockLang.Code.Literal
import BlockLang.Code.Piece
import BlockLang.Proofs.Enclosure
import BlockLang.Proofs.Encoding
import BlockLang.Proofs.Readers

/-! # Texts that lead from code to code

A text is put into generated code safely if the search for the end of a block, in code before the
text, is in code again behind it. This is kept by putting texts one after the other, so it is
proved of words, quoted texts and numbers once and for all.
-/

namespace BlockLang

namespace Body.State

/-- One byte does the same with more blocks around, as long as it does not close
the last block that is counted. -/
theorem step_frame {mode mode' : Mode} {m n : Nat} (extra : Nat) {b : UInt8}
    (h : step ⟨mode, m + 1⟩ b = some ⟨mode', n + 1⟩) :
    step ⟨mode, m + extra + 1⟩ b = some ⟨mode', n + extra + 1⟩ := by
  unfold step at h ⊢
  simp only at h ⊢
  by_cases hclose : mode.isCode = true ∧ b = '}'.toUInt8
  · rw [if_pos hclose] at h ⊢
    by_cases hle : m + 1 ≤ 1
    · -- A brace that closes the outermost block ends the walk.
      rw [if_pos hle] at h
      cases h
    · rw [if_neg hle] at h
      rw [if_neg (by omega)]
      obtain ⟨rfl, hn⟩ := State.mk.inj (Option.some.inj h)
      rw [Option.some.injEq, State.mk.injEq]
      exact ⟨rfl, by omega⟩
  · rw [if_neg hclose] at h ⊢
    split_ifs at h ⊢
    all_goals
      obtain ⟨rfl, hn⟩ := State.mk.inj (Option.some.inj h)
      rw [Option.some.injEq, State.mk.injEq]
      exact ⟨rfl, by omega⟩

/-- A walk goes on the same with more blocks open around it. -/
theorem walk_frame {mode mode' : Mode} {m n : Nat} (extra : Nat) {bs : List UInt8}
    (h : walk ⟨mode, m + 1⟩ bs = some ⟨mode', n + 1⟩) :
    walk ⟨mode, m + extra + 1⟩ bs = some ⟨mode', n + extra + 1⟩ := by
  induction bs generalizing mode m with
  | nil =>
      obtain ⟨rfl, rfl⟩ : mode = mode' ∧ m = n := by simpa [walk] using h
      rfl
  | cons b rest ih =>
      obtain ⟨⟨mode₁, depth⟩, hstep, hrest⟩ := Option.bind_eq_some_iff.mp h
      obtain ⟨k, rfl⟩ : ∃ k, depth = k + 1 :=
        Nat.exists_eq_succ_of_ne_zero
          (Nat.ne_of_gt (depth_pos_of_step hstep (Nat.succ_pos m)))
      simp only [walk, step_frame extra hstep]
      exact ih hrest

end Body.State

open Body

/-- Whether a byte of code is neither a quote, nor a slash, nor a brace. -/
def Body.isPlain (b : UInt8) : Bool :=
  !isQuote b && b != '/'.toUInt8 && b != '{'.toUInt8 && b != '}'.toUInt8

/-- Bytes without a meaning of their own leave everything as it is. -/
theorem Body.State.walk_plain {bs : List UInt8} (h : ∀ b ∈ bs, isPlain b = true) (depth : Nat) :
    walk ⟨.code, depth⟩ bs = some ⟨.code, depth⟩ := by
  induction bs with
  | nil => rfl
  | cons b rest ih =>
      obtain ⟨hb, hrest⟩ := List.forall_mem_cons.mp h
      simp only [isPlain, Bool.and_eq_true, Bool.not_eq_true', bne_iff_ne] at hb
      obtain ⟨⟨⟨hquote, hslash⟩, hopen⟩, hclose⟩ := hb
      have hstep : step ⟨.code, depth⟩ b = some ⟨.code, depth⟩ := by
        simp [step, Mode.next, Mode.afterCode, hquote, hslash, hopen, hclose]
      simp only [walk, hstep]
      exact ih hrest

namespace Text

/-- Whether a text leads from code to code, from inside `m` open blocks to
inside `n`, without closing any other around it. -/
def Passes (m n : Nat) (s : String) : Prop :=
  State.walk ⟨.code, m + 1⟩ (bytes s) = some ⟨.code, n + 1⟩

instance (m n : Nat) (s : String) : Decidable (Passes m n s) := inferInstanceAs (Decidable (_ = _))

variable {m n k : Nat} {s t : String}

/-- Texts that lead from code to code are put together where the blocks that are
open agree. -/
theorem Passes.append (hs : Passes m n s) (ht : Passes n k t) : Passes m k (s ++ t) := by
  rw [Passes, bytes_append, State.walk_append, hs]
  exact ht

theorem Passes.around {first last : String} (hfirst : Passes m n first) (h : Passes n n s)
    (hlast : Passes n k last) : Passes m k (first ++ s ++ last) :=
  (hfirst.append h).append hlast

/-- A text that leads from code to code does so inside of any number of other
blocks. -/
theorem Passes.frame (h : Passes m n s) (extra : Nat) : Passes (m + extra) (n + extra) s :=
  State.walk_frame extra h

theorem passes_empty (m : Nat) : Passes m m "" := rfl

/-- A text of plain bytes leads from code to code. -/
theorem passes_of_plain (h : ∀ b ∈ bytes s, isPlain b = true) (m : Nat) : Passes m m s :=
  State.walk_plain h (m + 1)

theorem isPlain_of_isWordPart {b : UInt8} (h : Scan.isWordPart b = true) : isPlain b = true := by
  have hne : ∀ c, Scan.isWordPart c = false → b ≠ c := by
    rintro c hc rfl
    rw [h] at hc
    cases hc
  simp [isPlain, isQuote, hne '\''.toUInt8 (by decide), hne '"'.toUInt8 (by decide),
    hne '`'.toUInt8 (by decide), hne '/'.toUInt8 (by decide), hne '{'.toUInt8 (by decide),
    hne '}'.toUInt8 (by decide)]

theorem IsWord.passes (h : IsWord s) (m : Nat) : Passes m m s :=
  passes_of_plain (fun b hb => isPlain_of_isWordPart (h b hb)) m

/-- Texts with a separator between them, all of which lead from code to code by
themselves. -/
theorem passes_intercalate {sep : String} {texts : List String} (hsep : Passes m m sep)
    (h : ∀ s ∈ texts, Passes m m s) : Passes m m (String.intercalate sep texts) := by
  induction texts with
  | nil => exact passes_empty m
  | cons s rest ih =>
      obtain ⟨hs, hrest⟩ := List.forall_mem_cons.mp h
      cases rest with
      | nil => simpa using hs
      | cons t rest =>
          rw [String.intercalate_cons_cons]
          exact (hs.append hsep).append (ih hrest)

/-! ## Quoted texts -/

/-- Inside quotes, only a quote of their kind or a backslash matters. -/
theorem walk_quoted {quote : UInt8} {bs : List UInt8}
    (h : ∀ b ∈ bs, b ≠ quote ∧ b ≠ '\\'.toUInt8) (depth : Nat) :
    State.walk ⟨.quoted quote, depth⟩ bs = some ⟨.quoted quote, depth⟩ := by
  induction bs with
  | nil => rfl
  | cons b rest ih =>
      obtain ⟨⟨hquote, hescape⟩, hrest⟩ := List.forall_mem_cons.mp h
      have hstep : State.step ⟨.quoted quote, depth⟩ b = some ⟨.quoted quote, depth⟩ := by
        simp [State.step, Mode.isCode, Mode.next, hquote, hescape]
      simp only [State.walk, hstep]
      exact ih hrest

theorem walk_quoted_char {c : Char} (hquote : c ≠ '"') (hescape : c ≠ '\\') (depth : Nat) :
    State.walk ⟨.quoted '"'.toUInt8, depth⟩ (String.utf8EncodeChar c) =
      some ⟨.quoted '"'.toUInt8, depth⟩ := by
  refine walk_quoted ?_ depth
  intro b hb
  constructor
  · rintro rfl
    exact hquote (eq_of_mem_encode (by decide) hb)
  · rintro rfl
    exact hescape (eq_of_mem_encode (by decide) hb)

theorem hexDigit_ne (n : Nat) : hexDigit n ≠ '"' ∧ hexDigit n ≠ '\\' := by
  have hdigits : ∀ k < 16, (Nat.toDigits 16 k).headD '0' ≠ '"' ∧
      (Nat.toDigits 16 k).headD '0' ≠ '\\' := by decide
  exact hdigits (n % 16) (Nat.mod_lt n (by decide))

/-- However a character is escaped, its bytes leave the walk inside of the
quotes. -/
theorem walk_escapeChar (c : Char) (depth : Nat) :
    State.walk ⟨.quoted '"'.toUInt8, depth⟩ ((escapeChar c).flatMap String.utf8EncodeChar) =
      some ⟨.quoted '"'.toUInt8, depth⟩ := by
  fun_cases escapeChar c with
  | case8 =>
      -- The four characters of the code are none that matter.
      have hcode : State.walk ⟨.quoted '"'.toUInt8, depth⟩
          (['\\', 'u', '0', '0'].flatMap String.utf8EncodeChar) =
            some ⟨.quoted '"'.toUInt8, depth⟩ := rfl
      obtain ⟨hhigh, hhigh'⟩ := hexDigit_ne (c.toNat / 16)
      obtain ⟨hlow, hlow'⟩ := hexDigit_ne (c.toNat % 16)
      have hsplit : ['\\', 'u', '0', '0', hexDigit (c.toNat / 16), hexDigit (c.toNat % 16)] =
          ['\\', 'u', '0', '0'] ++ [hexDigit (c.toNat / 16), hexDigit (c.toNat % 16)] := rfl
      rw [hsplit, List.flatMap_append, State.walk_append, hcode, Option.bind_some,
        List.flatMap_cons, List.flatMap_singleton, State.walk_append,
        walk_quoted_char hhigh hhigh', Option.bind_some, walk_quoted_char hlow hlow']
  | case9 hquote hescape =>
      rw [List.flatMap_singleton]
      exact walk_quoted_char hquote hescape depth
  | _ => rfl

theorem walk_escape (cs : List Char) (depth : Nat) :
    State.walk ⟨.quoted '"'.toUInt8, depth⟩ ((escape cs).flatMap String.utf8EncodeChar) =
      some ⟨.quoted '"'.toUInt8, depth⟩ := by
  induction cs with
  | nil => rfl
  | cons c rest ih =>
      rw [escape, List.flatMap_cons, List.flatMap_append, State.walk_append, walk_escapeChar]
      exact ih

/-- Whatever a quoted text says, it leads back to code. This is what makes
values of the source harmless in generated code. -/
theorem passes_quoted (m : Nat) (s : String) : Passes m m (quoted s) := by
  have hquote : String.utf8EncodeChar '"' = ['"'.toUInt8] := rfl
  have hopen : State.walk ⟨.code, m + 1⟩ ['"'.toUInt8] = some ⟨.quoted '"'.toUInt8, m + 1⟩ := rfl
  have hclose : State.walk ⟨.quoted '"'.toUInt8, m + 1⟩ ['"'.toUInt8] = some ⟨.code, m + 1⟩ := rfl
  rw [Passes, quoted, bytes_ofList, List.cons_append, List.flatMap_cons, List.flatMap_append,
    List.flatMap_singleton, hquote, State.walk_append, hopen, Option.bind_some, State.walk_append,
    walk_escape, Option.bind_some, hclose]

/-! ## Numbers and comments -/

def markChars : List Char := ['\'', '"', '`', '/', '{', '}']

theorem isPlain_of_mem_encode {c : Char} (hc : c ∉ markChars) {b : UInt8}
    (hb : b ∈ String.utf8EncodeChar c) : isPlain b = true := by
  have hne : ∀ d ∈ markChars, d.toNat < 128 → b ≠ d.toUInt8 := by
    rintro d hd hlt rfl
    exact hc (eq_of_mem_encode hlt hb ▸ hd)
  simp [isPlain, isQuote, hne '\'' (by decide) (by decide), hne '"' (by decide) (by decide),
    hne '`' (by decide) (by decide), hne '/' (by decide) (by decide),
    hne '{' (by decide) (by decide), hne '}' (by decide) (by decide)]

theorem passes_ofList {cs : List Char} (h : ∀ c ∈ cs, c ∉ markChars) (m : Nat) :
    Passes m m (String.ofList cs) := by
  refine passes_of_plain ?_ m
  rw [bytes_ofList]
  intro b hb
  obtain ⟨c, hc, hbc⟩ := List.mem_flatMap.mp hb
  exact isPlain_of_mem_encode (h c hc) hbc

theorem not_mem_markChars_of_isDigit {c : Char} (h : c.isDigit = true) : c ∉ markChars := by
  intro hmem
  have hall : markChars.all (fun d => !d.isDigit) = true := rfl
  have hnot := List.all_eq_true.mp hall c hmem
  rw [h] at hnot
  cases hnot

theorem isDigit_of_mem_replicate {count : Nat} {c : Char} (h : c ∈ List.replicate count '0') :
    c.isDigit = true := by
  rw [List.eq_of_mem_replicate h]
  rfl

theorem isDigit_of_mem_toDigits {n : Nat} {c : Char} (h : c ∈ Nat.toDigits 10 n) :
    c.isDigit = true :=
  Nat.isDigit_of_mem_toDigits (by decide) (by decide) h

/-- A number written without an exponent begins with a digit and goes on with
digits and points, so it has no mark in it. -/
theorem exists_writePositional {digits : List Char} (hne : digits ≠ [])
    (h : ∀ c ∈ digits, c.isDigit = true) (exponent : Int) :
    ∃ first part, (Decimal.writePositional false digits exponent).toList = first :: part ∧
      first.isDigit = true ∧ ∀ d ∈ part, d.isDigit = true ∨ d = '.' := by
  -- Digits come first, and then what may be a point.
  have hfront {front back : List Char} (hne : front ≠ []) (hfront : ∀ c ∈ front, c.isDigit = true)
      (hback : ∀ c ∈ back, c.isDigit = true ∨ c = '.') : ∃ first part,
      front ++ back = first :: part ∧ first.isDigit = true ∧
        ∀ d ∈ part, d.isDigit = true ∨ d = '.' := by
    obtain ⟨first, rest, rfl⟩ := List.exists_cons_of_ne_nil hne
    obtain ⟨hfirst, hrest⟩ := List.forall_mem_cons.mp hfront
    refine ⟨first, rest ++ back, rfl, hfirst, ?_⟩
    exact List.forall_mem_append.mpr ⟨fun d hd => .inl (hrest d hd), hback⟩
  unfold Decimal.writePositional
  split
  · simp only [Bool.false_eq_true, if_false, String.append_empty, String.toList_ofList]
    exact hfront hne h fun c hc => .inl (isDigit_of_mem_replicate hc)
  · simp only
    split
    next hplaces =>
      simp only [String.toList_append, String.toList_ofList, List.append_assoc]
      refine hfront ?_ (fun c hc => h c (List.mem_of_mem_take hc)) ?_
      · simp only [ne_eq, List.take_eq_nil_iff, hne, or_false]
        omega
      · refine List.forall_mem_append.mpr ⟨fun c hc => .inr (List.mem_singleton.mp hc), ?_⟩
        exact fun c hc => .inl (h c (List.mem_of_mem_drop hc))
    next =>
      have hzero : "0.".toList = ['0'] ++ ['.'] := rfl
      simp only [String.toList_append, String.toList_ofList, hzero, List.append_assoc]
      refine hfront (List.cons_ne_nil _ _) (by simp) ?_
      refine List.forall_mem_append.mpr ⟨fun c hc => .inr (List.mem_singleton.mp hc), ?_⟩
      refine List.forall_mem_append.mpr ⟨fun c hc => ?_, fun c hc => .inl (h c hc)⟩
      exact .inl (isDigit_of_mem_replicate hc)

/-- A number is a sign and a numeral. -/
theorem exists_numeral (x : Double) :
    ∃ first part, (Code.number x).toList =
      (if x.negative then ['-'] else []) ++ first :: part ∧ first.isDigit = true ∧
        ∀ d ∈ part, d.isDigit = true ∨ d = '.' := by
  have hsign : (if x.negative then "-" else "").toList = if x.negative then ['-'] else [] := by
    split <;> rfl
  rw [Code.number, Decimal.Layout.write]
  simp only
  split
  · refine ⟨'0', [], ?_, rfl, by simp⟩
    rw [String.toList_append, hsign]
    rfl
  · obtain ⟨first, part, htext, hpart⟩ := exists_writePositional Nat.toDigits_ne_nil
      (fun _ => isDigit_of_mem_toDigits) (Decimal.shortest Decimal.plain.tie x.steps).exponent
    refine ⟨first, part, ?_, hpart⟩
    rw [← htext, ← hsign, ← String.toList_append]
    rfl

theorem passes_number (x : Double) (m : Nat) : Passes m m (Code.number x) := by
  obtain ⟨first, part, htext, hfirst, hpart⟩ := exists_numeral x
  rw [← String.ofList_toList (s := Code.number x), htext]
  refine passes_ofList (List.forall_mem_append.mpr ⟨?_, ?_⟩) m
  · split <;> simp [markChars]
  · refine List.forall_mem_cons.mpr ⟨not_mem_markChars_of_isDigit hfirst, fun c hc => ?_⟩
    rcases hpart c hc with hdigit | rfl
    · exact not_mem_markChars_of_isDigit hdigit
    · decide

/-- A comment leads back to code at the end of its line. -/
theorem passes_comment (h : ∀ b ∈ bytes s, b ≠ '\n'.toUInt8) (m : Nat) :
    Passes m m ("//" ++ s ++ "\n") := by
  have hopen : State.walk ⟨.code, m + 1⟩ (bytes "//") = some ⟨.lineComment, m + 1⟩ := rfl
  have hinside : State.walk ⟨.lineComment, m + 1⟩ (bytes s) = some ⟨.lineComment, m + 1⟩ := by
    generalize bytes s = bs at h
    induction bs with
    | nil => rfl
    | cons b rest ih =>
        obtain ⟨hb, hrest⟩ := List.forall_mem_cons.mp h
        have hstep : State.step ⟨.lineComment, m + 1⟩ b = some ⟨.lineComment, m + 1⟩ := by
          simp [State.step, Mode.isCode, Mode.next, hb]
        simp only [State.walk, hstep]
        exact ih hrest
  have hclose : State.walk ⟨.lineComment, m + 1⟩ (bytes "\n") = some ⟨.code, m + 1⟩ := rfl
  rw [Passes, bytes_append, bytes_append, State.walk_append, State.walk_append, hopen,
    Option.bind_some, hinside, Option.bind_some, hclose]

end Text

/-! ## Bodies -/

namespace Body.Mode

def isLine : Mode → Bool
  | code | slash | lineComment => true
  | _ => false

theorem isLine_of_isCode {mode : Mode} (h : mode.isCode = true) : mode.isLine = true := by
  cases mode with
  | code | slash => rfl
  | quoted _ | escaped _ | lineComment | blockComment | star => cases h

theorem next_newline {mode : Mode} (h : mode.isLine = true) : mode.next '\n'.toUInt8 = code := by
  cases mode with
  | code | slash | lineComment => rfl
  | quoted _ | escaped _ | blockComment | star => cases h

/-- Whether only quotes are waited for. -/
def Settled : Mode → Prop
  | quoted quote | escaped quote => isQuote quote = true
  | _ => True

/-- A byte makes a walk wait for a quote only if it is one, so what was settled
stays settled. -/
theorem Settled.next {mode : Mode} (h : mode.Settled) (b : UInt8) : (mode.next b).Settled := by
  have hafter : (afterCode b).Settled := by
    unfold afterCode
    split_ifs with hquote
    · exact hquote
    · trivial
    · trivial
  cases mode with
  | code => exact hafter
  | slash =>
      simp only [Mode.next]
      split_ifs
      · trivial
      · trivial
      · exact hafter
  | quoted quote =>
      simp only [Mode.next]
      split_ifs
      · exact h
      · trivial
      · exact h
  | escaped quote => exact h
  | lineComment | blockComment | star =>
      simp only [Mode.next]
      split_ifs <;> trivial

end Body.Mode

theorem Body.State.step_newline {st : State} (h : st.mode.isLine = true) :
    st.step '\n'.toUInt8 = some ⟨.code, st.depth⟩ := by
  have hopen : '\n'.toUInt8 ≠ '{'.toUInt8 := by decide
  have hclose : '\n'.toUInt8 ≠ '}'.toUInt8 := by decide
  simp [step, hopen, hclose, Mode.next_newline h]

theorem Body.State.settled_of_walk {st last : State} {bs : List UInt8} (h : st.walk bs = some last)
    (hsettled : st.mode.Settled) : last.mode.Settled := by
  induction bs generalizing st with
  | nil =>
      obtain rfl := Option.some.inj h
      exact hsettled
  | cons b rest ih =>
      obtain ⟨next, hstep, hrest⟩ := Option.bind_eq_some_iff.mp h
      refine ih hrest ?_
      have hmode : next.mode = st.mode.next b := by
        unfold step at hstep
        split_ifs at hstep <;> rw [← Option.some.inj hstep]
      rw [hmode]
      exact hsettled.next b

namespace Text

/-- The bytes of a blank are not those of any other character of one byte,
although many blanks are longer than that. -/
theorem ne_of_isBlank {c : Char} (hc : isBlank c = true) {b : UInt8}
    (hb : b ∈ String.utf8EncodeChar c) {d : Char} (hd : d.toNat < 128)
    (hblank : isBlank d = false) :
    b ≠ d.toUInt8 := by
  rintro rfl
  rw [eq_of_mem_encode hd hb, hblank] at hc
  cases hc

theorem not_mem_markChars_of_isBlank {c : Char} (h : isBlank c = true) : c ∉ markChars := by
  intro hmem
  have hall : markChars.all (fun d => !isBlank d) = true := rfl
  have hnot := List.all_eq_true.mp hall c hmem
  rw [h] at hnot
  cases hnot

/-- Blanks end no quote and no comment but that of a line. -/
theorem isLine_of_next_blank {mode : Mode} (hsettled : mode.Settled) {c : Char}
    (hc : isBlank c = true) {b : UInt8} (hb : b ∈ String.utf8EncodeChar c)
    (h : (mode.next b).isLine = true) : mode.isLine = true := by
  have hescape : b ≠ '\\'.toUInt8 := ne_of_isBlank hc hb (by decide) (by decide)
  have hstar : b ≠ '*'.toUInt8 := ne_of_isBlank hc hb (by decide) (by decide)
  have hslash : b ≠ '/'.toUInt8 := ne_of_isBlank hc hb (by decide) (by decide)
  cases mode with
  | code | slash | lineComment => rfl
  | quoted quote =>
      have hplain := isPlain_of_mem_encode (not_mem_markChars_of_isBlank hc) hb
      have hquote : b ≠ quote := by
        rintro rfl
        simp [isPlain, show isQuote b = true from hsettled] at hplain
      simp [Mode.next, hescape, hquote, Mode.isLine] at h
  | escaped quote => cases h
  | blockComment => simp [Mode.next, hstar, Mode.isLine] at h
  | star => simp [Mode.next, hstar, hslash, Mode.isLine] at h

/-- Bytes of blanks behind which a line is at its end stand where it is, too. -/
theorem isLine_of_walk_blank {bs : List UInt8}
    (hblank : ∀ b ∈ bs, ∃ c, isBlank c = true ∧ b ∈ String.utf8EncodeChar c) {st last : State}
    (hsettled : st.mode.Settled) (h : st.walk bs = some last) (hline : last.mode.isLine = true) :
    st.mode.isLine = true ∧ st.depth = last.depth := by
  induction bs generalizing st with
  | nil =>
      obtain rfl := Option.some.inj h
      exact ⟨hline, rfl⟩
  | cons b rest ih =>
      obtain ⟨⟨c, hc, hb⟩, hrest⟩ := List.forall_mem_cons.mp hblank
      have hopen : b ≠ '{'.toUInt8 := ne_of_isBlank hc hb (by decide) (by decide)
      have hclose : b ≠ '}'.toUInt8 := ne_of_isBlank hc hb (by decide) (by decide)
      have hstep : st.step b = some ⟨st.mode.next b, st.depth⟩ := by
        simp [State.step, hopen, hclose]
      simp only [State.walk, hstep] at h
      obtain ⟨hmode, hdepth⟩ := ih hrest (hsettled.next b) h
      exact ⟨isLine_of_next_blank hsettled hc hb hmode, hdepth⟩

theorem exists_blanks (s : String) : ∃ lead trail, s.toList = lead ++ (trim s).toList ++ trail ∧
    (∀ c ∈ lead, isBlank c = true) ∧ ∀ c ∈ trail, isBlank c = true := by
  refine ⟨s.toList.takeWhile isBlank,
    ((s.toList.dropWhile isBlank).reverse.takeWhile isBlank).reverse, ?_,
    fun c => List.mem_takeWhile_imp, fun c hc => List.mem_takeWhile_imp (List.mem_reverse.mp hc)⟩
  rw [trim, String.toList_ofList, trimEnd, List.append_assoc, ← List.reverse_append,
    List.takeWhile_append_dropWhile, List.reverse_reverse, List.takeWhile_append_dropWhile]

/-- Blanks that are put behind a text are cut off with those that it ends in. -/
theorem trimEnd_append {cs trail : List Char} (h : ∀ c ∈ trail, isBlank c = true) :
    trimEnd (cs ++ trail) = trimEnd cs := by
  have hreverse : ∀ c ∈ trail.reverse, isBlank c = true :=
    fun c hc => h c (List.mem_reverse.mp hc)
  simp only [trimEnd, List.reverse_append, List.dropWhile_append_of_pos hreverse]

theorem trim_of_blanks {s t : String} {lead trail : List Char}
    (h : t.toList = lead ++ s.toList ++ trail) (hlead : ∀ c ∈ lead, isBlank c = true)
    (htrail : ∀ c ∈ trail, isBlank c = true) : trim t = trim s := by
  rw [trim, h, List.append_assoc, List.dropWhile_append_of_pos hlead, List.dropWhile_append]
  split_ifs with hempty
  · have hnone : s.toList.dropWhile isBlank = [] := List.isEmpty_iff.mp hempty
    rw [List.dropWhile_eq_nil_iff.mpr htrail, ← hnone]
    rfl
  · rw [trimEnd_append htrail]
    rfl

theorem trim_trim (s : String) : trim (trim s) = trim s := by
  obtain ⟨lead, trail, hs, hlead, htrail⟩ := exists_blanks s
  exact (trim_of_blanks hs hlead htrail).symm

/-- A line of its own adds nothing to a text but blanks, so trimming gives what
it gave before. -/
theorem trim_newline_ended (s : String) : trim ("\n" ++ Code.ended s) = trim s := by
  have hnewline : ∀ c ∈ ['\n'], isBlank c = true := List.forall_mem_singleton.mpr rfl
  unfold Code.ended
  split_ifs
  · have hlist : ("\n" ++ s).toList = ['\n'] ++ s.toList ++ [] := by simp
    exact trim_of_blanks hlist hnewline (by simp)
  · exact trim_of_blanks (by simp) hnewline hnewline

theorem not_isBlank_of_getLast {s : String} {c : Char} (h : (trim s).toList.getLast? = some c) :
    isBlank c = false := by
  rw [trim, String.toList_ofList, trimEnd, List.getLast?_reverse] at h
  have hnot := List.head?_dropWhile_not isBlank (s.toList.dropWhile isBlank).reverse
  rw [h] at hnot
  simpa using hnot

/-- What stands between braces as a whole leads from code to code when it is
trimmed, given that its last line is ended. -/
theorem passes_ended_trim {s : String} (h : Whole (bytes s)) :
    Passes 0 0 (Code.ended (trim s)) := by
  obtain ⟨mode, hwalk, hcode⟩ := h
  obtain ⟨lead, trail, hs, hlead, htrail⟩ := exists_blanks s
  have hplain : ∀ b ∈ lead.flatMap String.utf8EncodeChar, isPlain b = true := by
    intro b hb
    obtain ⟨c, hc, hbc⟩ := List.mem_flatMap.mp hb
    exact isPlain_of_mem_encode (not_mem_markChars_of_isBlank (hlead c hc)) hbc
  have hblank : ∀ b ∈ trail.flatMap String.utf8EncodeChar,
      ∃ c, isBlank c = true ∧ b ∈ String.utf8EncodeChar c := by
    intro b hb
    obtain ⟨c, hc, hbc⟩ := List.mem_flatMap.mp hb
    exact ⟨c, htrail c hc, hbc⟩
  rw [bytes_eq_flatMap, hs, List.flatMap_append, List.flatMap_append, List.append_assoc,
    State.walk_append, State.walk_plain hplain, Option.bind_some, State.walk_append] at hwalk
  obtain ⟨st, hcore, htail⟩ := Option.bind_eq_some_iff.mp hwalk
  -- Behind the last character that is no blank, the line is at its end or in a comment.
  obtain ⟨hmode, hdepth⟩ := isLine_of_walk_blank hblank
    (State.settled_of_walk hcore trivial) htail (Mode.isLine_of_isCode hcode)
  have hend : st.walk ['\n'.toUInt8] = some ⟨.code, 1⟩ := by
    simp [State.walk, State.step_newline hmode, hdepth]
  unfold Code.ended
  split_ifs with hended
  · rw [Bool.or_eq_true, beq_iff_eq] at hended
    rcases hended with hempty | hnewline
    · rw [String.isEmpty_iff.mp hempty]
      exact passes_empty 0
    · have hnot := not_isBlank_of_getLast hnewline
      cases hnot
  · rw [Passes, bytes_append, State.walk_append, bytes_eq_flatMap (trim s), hcore]
    exact hend

end Text

end BlockLang
