import BlockLang.Proofs.EmitOptions
import BlockLang.Proofs.Scopes
import BlockLang.Proofs.Script.Reading

/-! # Names in scope, text by text

Code is read part by part. A text that is given can be read on its own, whatever the scopes are that
it stands in; literals leave all scopes as they are; and a block leaves to the scope around it the
names that it does not declare.
-/

namespace BlockLang.Scopes

variable {D U : List String} {S : List Frame}

/-! ## Texts -/

/-- Characters are read one after another, so the lexer behind the first of two
texts is all that the second one depends on. -/
theorem Lexer.lex_append (l : Lexer) (cs ds : List Char) :
    l.lex (cs ++ ds) =
      ((l.lex cs).1 ++ ((l.lex cs).2.lex ds).1, ((l.lex cs).2.lex ds).2) := by
  induction cs generalizing l with
  | nil => rfl
  | cons c rest ih => rw [List.cons_append, lex, ih, lex, List.append_assoc]

def Runs (cs : List Char) (s s' : State) : Prop :=
  (Lexer.inCode.lex cs).2 = .inCode ∧ s.scan (Lexer.inCode.lex cs).1 = some s'

instance (cs : List Char) (s s' : State) : Decidable (Runs cs s s') := instDecidableAnd

/-- Whether reading a text that begins and ends between tokens leads from one
state to another. -/
def Run (text : String) (s s' : State) : Prop := Runs text.toList s s'

section Run

variable {text text' : String} {s s' s'' : State}

/-- Texts that begin and end between tokens can be read one by one. -/
theorem Run.append (h : Run text s s') (h' : Run text' s' s'') : Run (text ++ text') s s'' := by
  unfold Run Runs at h h' ⊢
  rw [String.toList_append, Lexer.lex_append, h.1]
  refine ⟨h'.1, ?_⟩
  rw [State.scan, List.foldlM_append]
  exact Option.bind_eq_some_iff.mpr ⟨s', h.2, h'.2⟩

theorem extend_append (front : List Frame) (f : Frame) :
    extend D U S (front ++ [f]) = front ++ ⟨f.kind, D ++ f.declared, U ++ f.used⟩ :: S := by
  induction front with
  | nil => rfl
  | cons g rest ih => rw [List.cons_append, extend_cons _ (by simp), ih, List.cons_append]

/-- A text that is given runs among other scopes as it does on its own, where
its run is a computation. -/
theorem run_literal (opened left : List Frame) {K : Kind} {b b' : Before} {ds us : List String}
    {cs : List Char} (htext : text = String.ofList cs)
    (h : Runs cs ⟨opened ++ [⟨K, [], []⟩], b⟩ ⟨left ++ [⟨K, ds, us⟩], b'⟩) :
    Run text ⟨opened ++ ⟨K, D, U⟩ :: S, b⟩ ⟨left ++ ⟨K, D ++ ds, U ++ us⟩ :: S, b'⟩ := by
  have hne : opened ++ [⟨K, [], []⟩] ≠ [] := by simp
  have hscan := State.scan_extend (D := D) (U := U) (S := S) hne h.2
  simp only [State.extend, extend_append, List.append_nil] at hscan
  rw [Run, htext, String.toList_ofList]
  exact ⟨h.1, hscan⟩

end Run

/-! ## Literals -/

/-- However a character is written inside of a string, the lexer stays in the
string: no escape ends it, and none leaves a backslash open. -/
theorem lex_escapeChar (c : Char) :
    Lexer.lex ⟨.string, false⟩ (Text.escapeChar c) = ([], ⟨.string, false⟩) := by
  have hhex (n : Nat) : Lexer.step ⟨.string, false⟩ (Text.hexDigit n) = ([], ⟨.string, false⟩) := by
    have hdigits : ∀ k < 16, Lexer.step ⟨.string, false⟩ ((Nat.toDigits 16 k).headD '0') =
        ([], ⟨.string, false⟩) := by decide
    exact hdigits (n % 16) (Nat.mod_lt n (by decide))
  have hcontrol (n : Nat) : Lexer.lex ⟨.string, false⟩ (['\\', 'u', '0', '0']
      ++ [Text.hexDigit (n / 16), Text.hexDigit (n % 16)]) = ([], ⟨.string, false⟩) := by
    have hfront : Lexer.lex ⟨.string, false⟩ ['\\', 'u', '0', '0'] = ([], ⟨.string, false⟩) := rfl
    rw [Lexer.lex_append, hfront]
    simp only [Lexer.lex, hhex, List.append_nil]
  fun_cases Text.escapeChar c with
  | case8 => exact hcontrol c.toNat
  | case9 hquote hslash hnewline => simp [Lexer.lex, Lexer.step, hquote, hslash, hnewline]
  | _ => rfl

theorem lex_string (value : String) :
    Lexer.inCode.lex (Code.string value).toList = ([.string], .inCode) := by
  have hinside : Lexer.lex ⟨.string, false⟩ (Text.escape value.toList) =
      ([], ⟨.string, false⟩) := by
    rw [Text.escape]
    generalize value.toList = cs
    induction cs with
    | nil => rfl
    | cons c rest ih =>
        simp only [List.flatMap_cons, Lexer.lex_append, lex_escapeChar, ih, List.append_nil]
  have hopen : Lexer.inCode.step '"' = ([], ⟨.string, false⟩) := rfl
  have hclose : Lexer.lex ⟨.string, false⟩ ['"'] = ([.string], .inCode) := rfl
  rw [Code.string, Text.quoted, String.toList_ofList, List.cons_append, Lexer.lex, hopen,
    Lexer.lex_append, hinside, hclose]
  rfl

/-- A numeral stands before what is not a part of it. -/
theorem lex_numeral {first c : Char} {part rest : List Char} (hfirst : first.isDigit = true)
    (hpart : ∀ d ∈ part, d.isDigit = true ∨ d = '.') (hname : Script.isNamePart c = false)
    (hpoint : c ≠ '.') :
    Lexer.inCode.lex (first :: part ++ c :: rest) =
      (.number :: (Lexer.inCode.lex (c :: rest)).1, (Lexer.inCode.lex (c :: rest)).2) := by
  have hstart : Lexer.inCode.step first = ([], ⟨.number, false⟩) := by
    have hblank : ¬ (first = ' ' ∨ first = '\n') := by
      rintro (rfl | rfl) <;> cases hfirst
    simp [Lexer.inCode, Lexer.step, Lexer.start, hblank, (Script.of_isDigit hfirst).1, hfirst]
  have hinside : Lexer.lex ⟨.number, false⟩ part = ([], ⟨.number, false⟩) := by
    induction part with
    | nil => rfl
    | cons d part ih =>
        obtain ⟨hd, hpart⟩ := List.forall_mem_cons.mp hpart
        have hstep : Lexer.step ⟨.number, false⟩ d = ([], ⟨.number, false⟩) := by
          rcases hd with hd | rfl
          · simp [Lexer.step, Script.isNamePart_of_isDigit hd]
          · rfl
        rw [Lexer.lex, hstep, ih hpart]
        rfl
  have hend : Lexer.lex ⟨.number, false⟩ (c :: rest) =
      (.number :: (Lexer.inCode.lex (c :: rest)).1, (Lexer.inCode.lex (c :: rest)).2) := by
    simp [Lexer.lex, Lexer.step, Lexer.inCode, hname, hpoint]
  rw [List.cons_append, Lexer.lex, hstart, Lexer.lex_append, hinside, hend]
  rfl

/-- Whether a text is a name, unless it is reserved. -/
def IsName (word : String) : Prop :=
  ∃ first rest, word.toList = first :: rest ∧ Script.isNameStart first = true ∧
    ∀ c ∈ rest, Script.isNamePart c = true

theorem IsName.isNamePart {word : String} (h : IsName word) :
    ∀ c ∈ word.toList, Script.isNamePart c = true := by
  obtain ⟨first, rest, htext, hfirst, hrest⟩ := h
  rw [htext]
  refine List.forall_mem_cons.mpr ⟨?_, hrest⟩
  unfold Script.isNameStart at hfirst
  unfold Script.isNamePart Char.isAlphanum
  simp only [Bool.or_eq_true] at hfirst ⊢
  tauto

theorem IsName.append {word part : String} (h : IsName word)
    (hpart : ∀ c ∈ part.toList, Script.isNamePart c = true) : IsName (word ++ part) := by
  obtain ⟨first, rest, htext, hfirst, hrest⟩ := h
  refine ⟨first, rest ++ part.toList, ?_, hfirst, List.forall_mem_append.mpr ⟨hrest, hpart⟩⟩
  rw [String.toList_append, htext, List.cons_append]

structure IsIdentifier (word : String) : Prop where
  isName : IsName word
  free : Code.isReserved word = false

theorem lex_word {word : String} (h : IsName word) {c : Char} (hc : Script.isNamePart c = false)
    (rest : List Char) :
    Lexer.inCode.lex (word.toList ++ c :: rest) =
      (.ofWord word :: (Lexer.inCode.lex (c :: rest)).1, (Lexer.inCode.lex (c :: rest)).2) := by
  obtain ⟨first, part, hword, hfirst, hpart⟩ := h
  have hstart : Lexer.inCode.step first = ([], ⟨.word [first], false⟩) := by
    have hblank : ¬ (first = ' ' ∨ first = '\n') := by
      rintro (rfl | rfl) <;> cases hfirst
    simp [Lexer.inCode, Lexer.step, Lexer.start, hblank, hfirst]
  have hinside (read : List Char) :
      Lexer.lex ⟨.word read, false⟩ part = ([], ⟨.word (read ++ part), false⟩) := by
    clear hword
    induction part generalizing read with
    | nil => rw [List.append_nil, Lexer.lex]
    | cons d part ih =>
        obtain ⟨hd, hpart⟩ := List.forall_mem_cons.mp hpart
        have hstep : Lexer.step ⟨.word read, false⟩ d = ([], ⟨.word (read ++ [d]), false⟩) := by
          simp [Lexer.step, hd]
        rw [Lexer.lex, hstep, ih hpart, List.append_assoc]
        rfl
  have hend : Lexer.lex ⟨.word word.toList, false⟩ (c :: rest) =
      (.ofWord word :: (Lexer.inCode.lex (c :: rest)).1, (Lexer.inCode.lex (c :: rest)).2) := by
    simp [Lexer.lex, Lexer.step, Lexer.inCode, hc]
  rw [hword] at hend ⊢
  rw [List.cons_append, Lexer.lex, hstart, Lexer.lex_append, hinside, List.singleton_append, hend]
  rfl

/-! ## Parts of lines -/

/-- Whether the names in a scope are used there, unless a word says that they
are declared. -/
def Kind.isPlain : Kind → Bool
  | .block | .group => true
  | .names | .parameters | .loop | .head => false

/-- Whether a text, read in a scope behind something, declares and uses some
names of the scope and then opens scopes inside of it. -/
def Opens (K : Kind) (b : Before) (text : String) (ds us : List String) (opened : List Frame)
    (b' : Before) : Prop :=
  ∀ D U S, Run text ⟨⟨K, D, U⟩ :: S, b⟩ ⟨opened ++ ⟨K, D ++ ds, U ++ us⟩ :: S, b'⟩

abbrev Reads (K : Kind) (b : Before) (text : String) (ds us : List String) (b' : Before) : Prop :=
  Opens K b text ds us [] b'

/-- Whether a text that fills parentheses or brackets in some scope uses some
names. -/
def Fills (K : Kind) (b : Before) (text : String) (us : List String) : Prop :=
  ∀ D U S mark, mark = ")" ∨ mark = "]" →
    Run (text ++ mark) ⟨⟨.group, [], []⟩ :: ⟨K, D, U⟩ :: S, b⟩ ⟨⟨K, D, U ++ us⟩ :: S, .other⟩

/-- Whether a text ends a scope and what is opened around it, and leaves some
names to the scope around all that. -/
def Closes (inside : Frame) (opened : List Frame) (text : String) (K : Kind) (vs : List String)
    (b : Before) : Prop :=
  ∀ D U S, Run text ⟨inside :: (opened ++ ⟨K, D, U⟩ :: S), .start⟩ ⟨⟨K, D, U ++ vs⟩ :: S, b⟩

section Parts

variable {K : Kind} {b b' b'' : Before} {text text' : String} {ds ds' us us' vs : List String}
  {opened : List Frame}

/-- A fixed text that is read on its own in an empty scope opens the same scopes
wherever it stands. -/
theorem opens_literal {cs : List Char} (htext : text = String.ofList cs)
    (h : Runs cs ⟨[⟨K, [], []⟩], b⟩ ⟨opened ++ [⟨K, ds, us⟩], b'⟩) :
    Opens K b text ds us opened b' :=
  fun _ _ _ => run_literal [] opened htext h

theorem reads_literal {cs : List Char} (htext : text = String.ofList cs)
    (h : Runs cs ⟨[⟨K, [], []⟩], b⟩ ⟨[⟨K, ds, us⟩], b'⟩) : Reads K b text ds us b' :=
  opens_literal htext h

theorem reads_semicolon : Reads .block .other ";" [] [] .start :=
  reads_literal rfl (by decide)

/-- A text that is given in two parts, where a token may begin in the first one
and end in the second. -/
theorem reads_literals {cs cs' : List Char} (htext : text = String.ofList cs)
    (htext' : text' = String.ofList cs')
    (h : Runs (cs ++ cs') ⟨[⟨K, [], []⟩], b⟩ ⟨[⟨K, ds, us⟩], b'⟩) :
    Reads K b (text ++ text') ds us b' :=
  reads_literal (by rw [htext, htext', String.ofList_append]) h

/-- Names that are read in front come before those of what is read behind, in
both lists. -/
theorem Reads.opens (h : Reads K b text ds us b') (h' : Opens K b' text' ds' us' opened b'') :
    Opens K b (text ++ text') (ds ++ ds') (us ++ us') opened b'' := by
  intro D U S
  have hrun := (h D U S).append (h' (D ++ ds) (U ++ us) S)
  rwa [List.append_assoc, List.append_assoc] at hrun

theorem Reads.append (h : Reads K b text ds us b') (h' : Reads K b' text' ds' us' b'') :
    Reads K b (text ++ text') (ds ++ ds') (us ++ us') b'' := h.opens h'

/-- The end of a group leaves all that it uses to the scope around it, since
nothing can be declared in a group. -/
theorem run_groupEnd {mark : String} (hmark : mark = ")" ∨ mark = "]") (hK : K.isPlain = true)
    (hb : b = .other ∨ b = .start) (D U us : List String) (S : List Frame) :
    Run mark ⟨⟨.group, [], us⟩ :: ⟨K, D, U⟩ :: S, b⟩ ⟨⟨K, D, U ++ us⟩ :: S, .other⟩ := by
  rcases hmark with rfl | rfl <;> rcases hb with rfl | rfl <;> cases K <;>
    first | exact ⟨rfl, rfl⟩ | cases hK

theorem Reads.fills (h : Reads .group b text [] us b') (hb : b' = .other ∨ b' = .start)
    (hK : K.isPlain = true) : Fills K b text us :=
  fun D U S _ hmark => (h [] [] (⟨K, D, U⟩ :: S)).append (run_groupEnd hmark hK hb D U us S)

/-- Parentheses or brackets behind a text that opens them. -/
theorem Opens.fill (h : Opens K b text ds us [⟨.group, [], []⟩] b') (hfills : Fills K b' text' us')
    {mark : String} (hmark : mark = ")" ∨ mark = "]") :
    Reads K b (text ++ text' ++ mark) ds (us ++ us') .other := by
  intro D U S
  have hrun := (h D U S).append (hfills (D ++ ds) (U ++ us) S mark hmark)
  rwa [← String.append_assoc, List.append_assoc U] at hrun

theorem reads_string (value : String) (hK : K.isPlain = true)
    (hb : b.move? .string = some (.pass .other)) : Reads K b (Code.string value) [] [] .other := by
  intro D U S
  have hpending : b.pending? .string = none := by cases b <;> rfl
  have hawaits : awaitsBlock (⟨K, D, U⟩ :: S) = false := by
    cases K <;> first | rfl | cases hK
  have hstep : State.step ⟨⟨K, D, U⟩ :: S, b⟩ .string = some ⟨⟨K, D, U⟩ :: S, .other⟩ := by
    simp only [State.step, hawaits, hb, hpending]
    rfl
  rw [Run, Runs, lex_string, List.append_nil, List.append_nil]
  exact ⟨rfl, Option.bind_eq_some_iff.mpr ⟨_, hstep, rfl⟩⟩

/-- A list of strings in brackets uses no names, however long it is. -/
theorem reads_strings (values : List String) (hK : K.isPlain = true)
    (hb : b = .other ∨ b = .start) : Reads K b (Code.strings values) [] [] .other := by
  have hopen : Opens K b "[" [] [] [⟨.group, [], []⟩] .start := by
    rcases hb with rfl | rfl <;> cases K <;>
      first | exact opens_literal rfl (by decide) | cases hK
  have hcomma : Reads .group .other ", " [] [] .start := reads_literal rfl (by decide)
  have hitems : ∃ b', (b' = .other ∨ b' = .start) ∧
      Reads .group .start (String.intercalate ", " (values.map Code.string)) [] [] b' := by
    induction values with
    | nil => exact ⟨.start, .inr rfl, reads_literal rfl (by decide)⟩
    | cons value rest ih =>
        have hvalue : Reads .group .start (Code.string value) [] [] .other :=
          reads_string value rfl rfl
        cases rest with
        | nil => exact ⟨.other, .inl rfl, hvalue⟩
        | cons next rest =>
            obtain ⟨b', hb', hrest⟩ := ih
            refine ⟨b', hb', ?_⟩
            rw [List.map_cons, List.map_cons, String.intercalate_cons_cons]
            exact (hvalue.append hcomma).append hrest
  obtain ⟨b', hb', hitems⟩ := hitems
  exact hopen.fill (hitems.fills hb' hK) (.inr rfl)

/-- A number at the end of a group. -/
theorem Reads.fills_number (h : Reads .group b text [] us .other) (hK : K.isPlain = true)
    (x : Double) : Fills K b (text ++ Code.number x) us := by
  intro D U S mark hmark
  have hmarks := run_groupEnd hmark hK (.inl rfl) D U us S
  obtain ⟨c, hc, hname, hpoint⟩ : ∃ c, mark = String.ofList [c] ∧ Script.isNamePart c = false ∧
      c ≠ '.' := by
    rcases hmark with rfl | rfl
    · exact ⟨')', rfl, by decide, by decide⟩
    · exact ⟨']', rfl, by decide, by decide⟩
  obtain ⟨first, part, htext, hfirst, hpart⟩ := Text.exists_numeral x
  have hnumeral : Runs (first :: part ++ [c]) ⟨⟨.group, [], us⟩ :: ⟨K, D, U⟩ :: S, .other⟩
      ⟨⟨K, D, U ++ us⟩ :: S, .other⟩ := by
    rw [Run, hc, String.toList_ofList] at hmarks
    rw [Runs, lex_numeral hfirst hpart hname hpoint]
    exact ⟨hmarks.1, hmarks.2⟩
  have hnumber : Run (Code.number x ++ mark) ⟨⟨.group, [], us⟩ :: ⟨K, D, U⟩ :: S, .other⟩
      ⟨⟨K, D, U ++ us⟩ :: S, .other⟩ := by
    rw [Run, String.toList_append, htext, hc, String.toList_ofList, List.append_assoc]
    split
    · have hsign : Lexer.inCode.step '-' = ([.mark '-'], .inCode) := rfl
      rw [Runs, List.singleton_append, Lexer.lex, hsign]
      exact ⟨hnumeral.1, hnumeral.2⟩
    · exact hnumeral
  rw [String.append_assoc]
  exact (h [] [] (⟨K, D, U⟩ :: S)).append hnumber

/-! ## Words -/

theorem Run.word {word : String} (hword : IsName word) {c : Char} {rest : List Char}
    (htext : text = String.ofList (c :: rest)) (hc : Script.isNamePart c = false)
    {s s' s'' : State} (hstep : s.step (.ofWord word) = some s') (h : Run text s' s'') :
    Run (word ++ text) s s'' := by
  rw [Run, htext, String.toList_ofList] at h
  rw [Run, Runs, String.toList_append, htext, String.toList_ofList, lex_word hword hc]
  exact ⟨h.1, Option.bind_eq_some_iff.mpr ⟨s', hstep, h.2⟩⟩

/-- A word before a mark, of which it may decide what the word is there for. -/
theorem Run.word_mark {word : String} (hword : IsName word) {c : Char} {rest : List Char}
    (htext : text = String.ofList (c :: rest)) (hc : Script.isNamePart c = false)
    (hmark : Lexer.inCode.step c = ([.mark c], .inCode)) {s mid s' s'' : State}
    (hstep : s.step (.ofWord word) = some mid) (hsame : mid.step (.mark c) = s'.step (.mark c))
    (h : Run text s' s'') : Run (word ++ text) s s'' := by
  refine Run.word hword htext hc hstep ?_
  rw [Run, Runs, htext, String.toList_ofList, Lexer.lex, hmark] at h ⊢
  refine ⟨h.1, ?_⟩
  rw [← h.2]
  exact congrArg (· >>= fun s => State.scan s _) hsame

theorem IsIdentifier.ofWord_eq {word : String} (h : IsIdentifier word) :
    Token.ofWord word = .name word := by
  rw [Token.ofWord, h.free]
  rfl

theorem Opens.use {word : String} (hword : IsIdentifier word) (hK : K.isPlain = true) {c : Char}
    {rest : List Char} (htext : text = String.ofList (c :: rest))
    (hc : Script.isNamePart c = false) (hmark : Lexer.inCode.step c = ([.mark c], .inCode))
    (h : Opens K .other text ds us opened b') :
    Opens K .other (word ++ text) ds (word :: us) opened b' := by
  intro D U S
  have hname : State.step ⟨⟨K, D, U⟩ :: S, .other⟩ (.ofWord word) =
      some ⟨⟨K, D, U⟩ :: S, .name false word⟩ := by
    rw [hword.ofWord_eq]
    cases K <;> first | rfl | cases hK
  have hsame : State.step ⟨⟨K, D, U⟩ :: S, .name false word⟩ (.mark c) =
      State.step ⟨⟨K, D, U ++ [word]⟩ :: S, .other⟩ (.mark c) := by
    have hpending : Before.pending? (.name false word) (.mark c) = some (false, word) := by
      simp [Before.pending?]
    simp only [State.step, hpending]
    cases K <;> first | rfl | cases hK
  have hrun := h D (U ++ [word]) S
  rw [List.append_assoc U, List.singleton_append] at hrun
  exact .word_mark hword.isName htext hc hmark hname hsame hrun

theorem Reads.fills_word {word : String} (h : Reads .group b text [] us .start)
    (hword : IsIdentifier word) (hK : K.isPlain = true) :
    Fills K b (text ++ word) (us ++ [word]) := by
  intro D U S mark hmark
  have hname : State.step ⟨⟨.group, [], us⟩ :: ⟨K, D, U⟩ :: S, .start⟩ (.ofWord word) =
      some ⟨⟨.group, [], us⟩ :: ⟨K, D, U⟩ :: S, .name true word⟩ := by
    rw [hword.ofWord_eq]
    rfl
  have hend := run_groupEnd hmark hK (.inl rfl) D U (us ++ [word]) S
  have hrun : Run (word ++ mark) ⟨⟨.group, [], us⟩ :: ⟨K, D, U⟩ :: S, .start⟩
      ⟨⟨K, D, U ++ (us ++ [word])⟩ :: S, .other⟩ := by
    rcases hmark with rfl | rfl
    · exact .word_mark hword.isName rfl (by decide) rfl hname rfl hend
    · exact .word_mark hword.isName rfl (by decide) rfl hname rfl hend
  rw [String.append_assoc]
  exact (h [] [] (⟨K, D, U⟩ :: S)).append hrun

/-- A word before a colon is a key, which is neither used nor declared. -/
theorem Opens.key {word : String} (hword : IsName word) (hK : K.isPlain = true) {rest : List Char}
    (htext : text = String.ofList (':' :: rest)) (h : Opens K .other text ds us opened b') :
    Opens K .start (word ++ text) ds us opened b' := by
  intro D U S
  have hkey {b : Before} (hstep : State.step ⟨⟨K, D, U⟩ :: S, .start⟩ (.ofWord word) =
        some ⟨⟨K, D, U⟩ :: S, b⟩)
      (hsame : State.step ⟨⟨K, D, U⟩ :: S, b⟩ (.mark ':') =
        State.step ⟨⟨K, D, U⟩ :: S, .other⟩ (.mark ':')) :
      Run (word ++ text) ⟨⟨K, D, U⟩ :: S, .start⟩
        ⟨opened ++ ⟨K, D ++ ds, U ++ us⟩ :: S, b'⟩ :=
    .word_mark hword htext (by decide) rfl hstep hsame (h D U S)
  unfold Token.ofWord at hkey
  -- A key may be a reserved word.
  split at hkey
  · refine hkey (b := .ofKeyword word) (by cases K <;> first | rfl | cases hK) ?_
    unfold Before.ofKeyword
    split_ifs <;> rfl
  · exact hkey (b := .name true word) (by cases K <;> first | rfl | cases hK) rfl

theorem Opens.declare {word : String} (hword : IsIdentifier word) (hK : K.isPlain = true) {c : Char}
    {rest : List Char} (htext : text = String.ofList (c :: rest))
    (hc : Script.isNamePart c = false)
    (hb : b = .declaring ∧ b' = .other ∨ b = .naming ∧ b' = .titled)
    (h : Opens K b' text ds us opened b'') :
    Opens K b (word ++ text) (word :: ds) us opened b'' := by
  intro D U S
  have hstep : State.step ⟨⟨K, D, U⟩ :: S, b⟩ (.ofWord word) =
      some ⟨⟨K, D ++ [word], U⟩ :: S, b'⟩ := by
    rw [hword.ofWord_eq]
    rcases hb with ⟨rfl, rfl⟩ | ⟨rfl, rfl⟩ <;> cases K <;> first | rfl | cases hK
  have hrun := h (D ++ [word]) U S
  rw [List.append_assoc D, List.singleton_append] at hrun
  exact .word hword.isName htext hc hstep hrun

/-! ## Ends of scopes -/

/-- A block leaves what it uses and does not declare, in the order in which it
is used. -/
theorem closes_block (hK : K.isPlain = true) :
    Closes ⟨.block, ds, us⟩ [] r"}" K (us.filter (· ∉ ds)) .start := by
  intro D U S
  cases K <;> first | exact ⟨rfl, rfl⟩ | cases hK

theorem closes_body {params : List String} : Closes ⟨.block, ds, us⟩ [⟨.head, params, vs⟩] r"}" K
    ((vs ++ us.filter (· ∉ ds)).filter (· ∉ params)) .start :=
  fun _ _ _ => ⟨rfl, rfl⟩

theorem closes_group (hK : K.isPlain = true) : Closes ⟨.group, [], us⟩ [] "]" K us .other :=
  fun D U S => run_groupEnd (.inr rfl) hK (.inr rfl) D U us S

theorem Closes.append {inside : Frame} (h : Closes inside opened text K vs b)
    (h' : Reads K b text' [] [] b') : Closes inside opened (text ++ text') K vs b' := by
  intro D U S
  have hrun := (h D U S).append (h' D (U ++ vs) S)
  rwa [List.append_nil, List.append_nil] at hrun

theorem Closes.paren {inside : Frame} (h : Closes inside [] text .group vs b)
    (hb : b = .other ∨ b = .start) (hK : K.isPlain = true) :
    Closes inside [⟨.group, [], []⟩] (text ++ ")") K vs .other :=
  fun D U S => (h [] [] (⟨K, D, U⟩ :: S)).append (run_groupEnd (.inl rfl) hK hb D U vs S)

end Parts

/-! ## Pieces of code -/

open Code

theorem run_blanks {text : String} (h : ∀ c ∈ text.toList, c = ' ' ∨ c = '\n') (s : State) :
    Run text s s := by
  have hlex : Lexer.inCode.lex text.toList = ([], .inCode) := by
    generalize text.toList = cs at h
    induction cs with
    | nil => rfl
    | cons c rest ih =>
        obtain ⟨hc, hrest⟩ := List.forall_mem_cons.mp h
        have hstep : Lexer.inCode.step c = ([], .inCode) := by
          rcases hc with rfl | rfl <;> rfl
        rw [Lexer.lex, hstep, ih hrest]
        rfl
  rw [Run, Runs, hlex]
  exact ⟨rfl, rfl⟩

theorem run_indentation (depth : Nat) (s : State) : Run (indentation depth) s s := by
  refine run_blanks (fun c hc => ?_) s
  rw [indentation, String.toList_ofList] at hc
  exact .inl (List.eq_of_mem_replicate hc)

theorem Run.lineAt {text : String} {s s' : State} (h : Run text s s') (depth : Nat) :
    Run (lineAt depth text) s s' := by
  have hnewline : Run "\n" s' s' := run_blanks (by simp) s'
  unfold Code.lineAt
  split
  next hempty =>
    rw [String.isEmpty_iff.mp hempty] at h
    exact h.append hnewline
  next => exact ((run_indentation depth s).append h).append hnewline

/-- A comment is read like nothing. -/
theorem run_lineAt_comment {text : String} (h : ∀ c ∈ text.toList, c ≠ '\n') (depth : Nat)
    (s : State) : Run (lineAt depth ("//" ++ text)) s s := by
  have hline : lineAt depth ("//" ++ text) = indentation depth ++ ("//" ++ (text ++ "\n")) := by
    rw [Code.lineAt, if_neg (by simp), String.append_assoc, String.append_assoc]
  have hinside : Lexer.lex ⟨.comment, false⟩ text.toList = ([], ⟨.comment, false⟩) := by
    generalize text.toList = cs at h
    induction cs with
    | nil => rfl
    | cons c rest ih =>
        obtain ⟨hc, hrest⟩ := List.forall_mem_cons.mp h
        have hstep : Lexer.step ⟨.comment, false⟩ c = ([], ⟨.comment, false⟩) := by
          simp [Lexer.step, hc]
        rw [Lexer.lex, hstep, ih hrest]
        rfl
  have hopen : Lexer.inCode.lex "//".toList = ([], ⟨.comment, false⟩) := rfl
  have hclose : Lexer.lex ⟨.comment, false⟩ "\n".toList = ([], .inCode) := rfl
  have hcomment : Run ("//" ++ (text ++ "\n")) s s := by
    rw [Run, Runs, String.toList_append, String.toList_append, Lexer.lex_append, hopen,
      Lexer.lex_append, hinside, hclose]
    exact ⟨rfl, rfl⟩
  rw [hline]
  exact (run_indentation depth s).append hcomment

/-- Whether some code, which stands below `m` open blocks or more and leaves `n`
or as many more of them open, leads from one state to another. -/
structure Spans (m n : Nat) (ps : List Piece) (s s' : State) : Prop where
  depth : ∀ d, ps.foldl Piece.depthAfter (d + m) = d + n
  run : ∀ d, Run (String.join (renderFrom (d + m) ps)) s s'

section Spans

variable {m n k : Nat} {ps qs : List Piece} {s s' s'' : State} {text : String}

theorem Spans.append (hp : Spans m n ps s s') (hq : Spans n k qs s' s'') :
    Spans m k (ps ++ qs) s s'' := by
  refine ⟨fun d => ?_, fun d => ?_⟩
  · rw [List.foldl_append, hp.depth, hq.depth]
  · rw [renderFrom_append, hp.depth, String.join_append]
    exact (hp.run d).append (hq.run d)

/-- Code that is read at one depth is read alike at any greater one, since the
depth only decides how far its lines are moved in. -/
theorem Spans.deeper (h : Spans m n ps s s') (k : Nat) : Spans (m + k) (n + k) ps s s' := by
  have hdepth (d m : Nat) : d + (m + k) = d + k + m := by omega
  refine ⟨fun d => ?_, fun d => ?_⟩
  · rw [hdepth, hdepth, h.depth]
  · rw [hdepth]
    exact h.run (d + k)

theorem join_renderFrom_singleton (depth : Nat) (p : Piece) :
    String.join (renderFrom depth [p]) = p.render depth := by
  simp [renderFrom, String.join_cons, String.join_nil]

theorem spans_line (h : Run text s s') : Spans m m [.line text] s s' := by
  refine ⟨fun d => rfl, fun d => ?_⟩
  rw [join_renderFrom_singleton]
  exact h.lineAt _

theorem spans_opening (h : Run text s s') : Spans m (m + 1) [.opening text] s s' := by
  refine ⟨fun d => rfl, fun d => ?_⟩
  rw [join_renderFrom_singleton]
  exact h.lineAt _

theorem spans_closing (h : Run text s s') : Spans (m + 1) m [.closing text] s s' := by
  refine ⟨fun d => rfl, fun d => ?_⟩
  rw [join_renderFrom_singleton]
  exact h.lineAt _

theorem spans_reopening (h : Run text s s') : Spans (m + 1) (m + 1) [.reopening text] s s' := by
  refine ⟨fun d => rfl, fun d => ?_⟩
  rw [join_renderFrom_singleton]
  exact h.lineAt _

theorem spans_blank (s : State) : Spans m m [.blank] s s := by
  refine ⟨fun d => rfl, fun d => ?_⟩
  rw [join_renderFrom_singleton]
  exact run_blanks (by simp [Piece.render]) s

theorem spans_comment (h : ∀ c ∈ text.toList, c ≠ '\n') (s : State) :
    Spans m m [.line ("//" ++ text)] s s := by
  refine ⟨fun d => rfl, fun d => ?_⟩
  rw [join_renderFrom_singleton]
  exact run_lineAt_comment h _ s

end Spans

/-- Whether some code, read in a scope, declares and uses some names of it. -/
def Scoped (K : Kind) (ps : List Piece) (ds us : List String) : Prop :=
  ∀ D U S, Spans 0 0 ps ⟨⟨K, D, U⟩ :: S, .start⟩ ⟨⟨K, D ++ ds, U ++ us⟩ :: S, .start⟩

section Scoped

variable {K K' : Kind} {ps qs : List Piece} {ds us ds' us' vs : List String}

/-- One part of a scope after another: what both declare and use comes in the
order of the parts. -/
theorem Scoped.append (hp : Scoped K ps ds us) (hq : Scoped K qs ds' us') :
    Scoped K (ps ++ qs) (ds ++ ds') (us ++ us') := by
  intro D U S
  have hspans := (hp D U S).append (hq (D ++ ds) (U ++ us) S)
  rwa [List.append_assoc, List.append_assoc] at hspans

theorem Scoped.of_eq (h : Scoped K ps ds us) (hcode : ps = qs) (hnames : us = us') :
    Scoped K qs ds us' := hcode ▸ hnames ▸ h

theorem scoped_nil : Scoped K [] [] [] := by
  intro D U S
  rw [List.append_nil, List.append_nil]
  exact ⟨fun _ => rfl, fun _ => ⟨rfl, rfl⟩⟩

theorem scoped_blank : Scoped K [.blank] [] [] := by
  intro D U S
  rw [List.append_nil, List.append_nil]
  exact spans_blank _

/-- Code that is made part by part from a list has the names of its parts in the
order of the list. -/
theorem scoped_flatMap {α : Type} {as : List α} {f : α → List Piece} {ds us : α → List String}
    (h : ∀ a ∈ as, Scoped K (f a) (ds a) (us a)) :
    Scoped K (as.flatMap f) (as.flatMap ds) (as.flatMap us) := by
  induction as with
  | nil => exact scoped_nil
  | cons a rest ih =>
      obtain ⟨ha, hrest⟩ := List.forall_mem_cons.mp h
      exact ha.append (ih hrest)

theorem scoped_flatMap_using {α : Type} {as : List α} {f : α → List Piece} {us : α → List String}
    (h : ∀ a ∈ as, Scoped K (f a) [] (us a)) : Scoped K (as.flatMap f) [] (as.flatMap us) := by
  have hcode := scoped_flatMap h
  rwa [List.flatMap_eq_nil_iff.mpr fun _ _ => rfl] at hcode

theorem scoped_flatMap_nameless {α : Type} {as : List α} {f : α → List Piece}
    (h : ∀ a ∈ as, Scoped K (f a) [] []) : Scoped K (as.flatMap f) [] [] := by
  have hcode := scoped_flatMap_using h
  rwa [List.flatMap_eq_nil_iff.mpr fun _ _ => rfl] at hcode

theorem scoped_line {text : String} (h : Reads K .start text ds us .start) :
    Scoped K [.line text] ds us :=
  fun D U S => spans_line (h D U S)

/-- A block, given how its first line opens scopes and its last one closes
them. -/
theorem Scoped.block {before behind : String} {opened : List Frame}
    (h : Scoped K' ps ds' us')
    (hopen : Opens K .start before ds us (⟨K', [], []⟩ :: opened) .start)
    (hclose : Closes ⟨K', ds', us'⟩ opened behind K vs .start) :
    Scoped K (Code.block before ps behind) ds (us ++ vs) := by
  intro D U S
  have hinside := (h [] [] (opened ++ ⟨K, D ++ ds, U ++ us⟩ :: S)).deeper 1
  have hspans := ((spans_opening (hopen D U S)).append hinside).append
    (spans_closing (hclose (D ++ ds) (U ++ us) S))
  rwa [List.append_assoc U] at hspans

/-- Two blocks with one line between them, which ends the first and opens the
second, as in a condition with both of its branches. -/
theorem Scoped.branches {before between behind : String} {opened : List Frame}
    (hp : Scoped .block ps ds us) (hq : Scoped .block qs ds' us') {ws : List String}
    (hopen : Opens K .start before [] vs [⟨.block, [], []⟩] .start)
    (hbetween : Opens K .start between [] [] (⟨.block, [], []⟩ :: opened) .start)
    (hclose : Closes ⟨.block, ds', us'⟩ opened behind K ws .start) (hK : K.isPlain = true) :
    Scoped K (.opening before :: ps ++ .reopening (r"}" ++ between) :: qs ++ [.closing behind]) []
      (vs ++ us.filter (· ∉ ds) ++ ws) := by
  intro D U S
  have hfirst := (hp [] [] (⟨K, D ++ [], U ++ vs⟩ :: S)).deeper 1
  have hend : Closes ⟨.block, ds, us⟩ [] r"}" K (us.filter (· ∉ ds)) .start := closes_block hK
  have hreopen := (hend (D ++ []) (U ++ vs) S).append (hbetween _ _ S)
  have hsecond := (hq [] [] (opened ++ ⟨K, D ++ [] ++ [],
    U ++ vs ++ us.filter (· ∉ ds) ++ []⟩ :: S)).deeper 1
  have hspans := ((((spans_opening (hopen D U S)).append hfirst).append
    (spans_reopening hreopen)).append hsecond).append (spans_closing (hclose _ _ S))
  simpa using hspans

/-- The names of code that is a module of its own. -/
theorem Scoped.read? (h : Scoped .block ps ds us) : Scopes.read? (render ps) = some (ds, us) := by
  obtain ⟨hlex, hscan⟩ := (h [] [] []).run 0
  simp only [Scopes.read?, render, State.atStart, hlex, if_true]
  rw [hscan]
  rfl

end Scoped

end BlockLang.Scopes
