import BlockLang.Proofs.Blocks

/-! # Errors stand where their tokens do

Tokens that all move, with the end of their source, are read as before: a reader gives the same
result, or it fails at the same token, where the token is now. This is proved reader by reader, for
every list of tokens and whether or not reading succeeds.
-/

namespace BlockLang

def ParseError.rebase (base base' : Position) (e : ParseError) : ParseError :=
  let p := base.rebase base' ⟨base.offset, e.line, e.column⟩
  { e with line := p.line, column := p.column }

namespace Parser

/-- A change of tokens and of the end of their source that keeps kinds and
texts, with what it makes of lines and of errors. -/
structure Moves (f : Token → Token) (lines : Nat → Nat) (errors : ParseError → ParseError)
    (stop stop' : Position) : Prop where
  kind : ∀ t, (f t).kind = t.kind
  text : ∀ t, (f t).text = t.text
  line : ∀ t, (f t).position.line = lines t.position.line
  unexpected : ∀ expected ts,
    Parser.unexpected stop' expected (ts.map f) = errors (Parser.unexpected stop expected ts)

/-- Counting all positions from elsewhere is such a change: lines move by a
constant, and errors move with their tokens. -/
theorem moves_rebase (base base' stop : Position) :
    Moves (Token.rebase base base') (fun line => line + base'.line - base.line)
      (ParseError.rebase base base') stop (base.rebase base' stop) where
  kind := fun _ => rfl
  text := fun _ => rfl
  line := fun _ => rfl
  unexpected := by
    intro expected ts
    cases ts <;> rfl

def Outcome.move {α β : Type} (f : Token → Token) (errors : ParseError → ParseError) (g : α → β) :
    Except ParseError (α × List Token) → Except ParseError (β × List Token)
  | .ok (a, rest) => .ok (g a, rest.map f)
  | .error e => .error (errors e)

/-- Whether two readers give the same, before and after a change of tokens. -/
def Commutes {α β : Type} (f : Token → Token) (errors : ParseError → ParseError) (g : α → β)
    (read : List Token → Outcome α) (read' : List Token → Outcome β) : Prop :=
  ∀ ts, read' (ts.map f) = Outcome.move f errors g (read ts)

section

variable {α β γ δ : Type} {f : Token → Token} {lines : Nat → Nat}
  {errors : ParseError → ParseError} {stop stop' : Position}

/-- What holds of two readers holds of one after the other, so that below no
reader is looked into twice. -/
theorem move_bind {x : Except ParseError (α × List Token)}
    {x' : Except ParseError (β × List Token)} {g : α → β} {g' : γ → δ}
    {next : α × List Token → Except ParseError (γ × List Token)}
    {next' : β × List Token → Except ParseError (δ × List Token)}
    (hx : x' = Outcome.move f errors g x)
    (hnext : ∀ a rest, next' (g a, rest.map f) = Outcome.move f errors g' (next (a, rest))) :
    (x' >>= next') = Outcome.move f errors g' (x >>= next) := by
  subst hx
  rcases x with e | ⟨a, rest⟩
  · rfl
  · exact hnext a rest

variable (hf : Moves f lines errors stop stop')

include hf

/-! ## Single tokens -/

theorem isMark_map (m : Mark) (t : Token) : isMark m (f t) = isMark m t := by
  simp [isMark, hf.kind]

theorem wordOrString_map (t : Token) : wordOrString (f t) = wordOrString t := by
  simp [wordOrString, word, string, hf.kind, hf.text]

theorem move_unexpected {g : α → β} (expected : Expectation) (ts : List Token) :
    (.error (unexpected stop' expected (ts.map f)) : Except ParseError (β × List Token)) =
      Outcome.move f errors g (.error (unexpected stop expected ts)) :=
  congrArg Except.error (hf.unexpected expected ts)

/-- Expecting a token commutes with a change that keeps what is accepted. -/
theorem commutes_expect {g : α → β} {accept : Token → Option α} {accept' : Token → Option β}
    (haccept : ∀ t, accept' (f t) = (accept t).map g) (expected : Expectation) :
    Commutes f errors g (expect stop expected accept) (expect stop' expected accept') := by
  intro ts
  cases ts with
  | nil => exact move_unexpected hf expected []
  | cons t rest =>
      simp only [List.map_cons, expect, haccept]
      cases accept t with
      | none => exact move_unexpected hf expected (t :: rest)
      | some a => rfl

theorem commutes_word (expected : Expectation) :
    Commutes f errors id (expect stop expected word) (expect stop' expected word) :=
  commutes_expect hf (fun t => by simp [word, hf.kind, hf.text]) expected

theorem commutes_string (expected : Expectation) :
    Commutes f errors id (expect stop expected string) (expect stop' expected string) :=
  commutes_expect hf (fun t => by simp [string, hf.kind, hf.text]) expected

theorem commutes_wordOrString (expected : Expectation) :
    Commutes f errors id (expect stop expected wordOrString)
      (expect stop' expected wordOrString) :=
  commutes_expect hf (fun t => by simp [wordOrString_map hf]) expected

theorem commutes_mark (m : Mark) :
    Commutes f errors id (expectMark stop m) (expectMark stop' m) :=
  commutes_expect hf (fun t => by simp [isMark_map hf]) (.mark m)

theorem eat_map (m : Mark) (ts : List Token) :
    eat m (ts.map f) = ((eat m ts).1, (eat m ts).2.map f) := by
  cases ts with
  | nil => rfl
  | cons t rest =>
      simp only [List.map_cons, eat, isMark_map hf]
      split <;> rfl

theorem skipCommas_map (ts : List Token) : skipCommas (ts.map f) = (skipCommas ts).map f := by
  rw [skipCommas, skipCommas, List.dropWhile_map]
  congr 2
  funext t
  exact isMark_map hf .comma t

/-! ## Lists between braces -/

/-- A list up to its closing brace is read alike if its items are. -/
theorem commutes_untilBrace {g : α → β} {item : Rule α} {item' : Rule β}
    (hitem : Commutes f errors g item.read item'.read) :
    Commutes f errors (List.map g) item.untilBrace item'.untilBrace := by
  intro ts
  rw [untilBrace_eq, untilBrace_eq, skipCommas_map hf, eat_map hf]
  rcases heat : eat .braceClose (skipCommas ts) with ⟨_ | _, rest⟩
  · simp only
    rw [hitem]
    rcases hread : item.read rest with e | ⟨a, later⟩
    · rfl
    · have hshorter := item.length_of_read heat hread
      simp only [Outcome.move]
      rw [commutes_untilBrace hitem later]
      rcases item.untilBrace later with e | ⟨more, last⟩ <;> rfl
  · rfl
termination_by ts => ts.length

/-! ## Schemas -/

/-- Arguments of a type, read one key or value at a time up to the closing
parenthesis. -/
theorem commutes_arguments (keyed : Arguments) (variants : List String) :
    Commutes f errors id (arguments stop keyed variants) (arguments stop' keyed variants) := by
  intro ts
  have hvalue (t : Token) : isArgumentValue (f t) = isArgumentValue t := by
    simp only [isArgumentValue, hf.kind]
  rcases ts with _ | ⟨t, rest⟩
  · exact move_unexpected hf .argumentOrClose []
  rw [List.map_cons, arguments.eq_def, arguments.eq_def stop]
  simp only [isMark_map hf, hf.kind, hf.text]
  split_ifs
  · rfl
  · exact commutes_arguments keyed variants rest
  · exact commutes_arguments keyed (variants ++ [t.text]) rest
  · rcases rest with _ | ⟨colon, later⟩
    · exact move_unexpected hf .argumentOrClose []
    simp only [List.map_cons, isMark_map hf]
    split_ifs
    · rcases later with _ | ⟨value, last⟩
      · exact move_unexpected hf .argumentValue []
      simp only [List.map_cons, hvalue, hf.text]
      split_ifs
      · exact commutes_arguments _ variants last
      · exact move_unexpected hf .argumentValue (value :: last)
    · exact commutes_arguments keyed (variants ++ [t.text]) (colon :: later)
  · exact move_unexpected hf .argumentOrClose (t :: rest)
termination_by ts => ts.length

theorem commutes_optionalArguments :
    Commutes f errors id (optionalArguments stop) (optionalArguments stop') := by
  intro ts
  rw [optionalArguments, optionalArguments, eat_map hf]
  rcases eat .parenOpen ts with ⟨opened, rest⟩
  cases opened with
  | true => exact commutes_arguments hf [] [] rest
  | false => rfl

theorem commutes_readField : Commutes f errors id (readField stop) (readField stop') := by
  intro ts
  refine move_bind (commutes_word hf _ ts) ?_
  intro name ts
  refine move_bind (commutes_mark hf _ ts) ?_
  intro _ ts
  refine move_bind (commutes_word hf _ ts) ?_
  intro typeName ts
  refine move_bind (commutes_optionalArguments hf ts) ?_
  intro found ts
  simp only [eat_map hf]
  rfl

theorem commutes_schema (line : Nat) :
    Commutes f errors (Schema.mapLine lines) (schema stop line) (schema stop' (lines line)) := by
  intro ts
  refine move_bind (commutes_word hf _ ts) ?_
  intro name ts
  refine move_bind (commutes_mark hf _ ts) ?_
  intro _ ts
  refine move_bind (commutes_untilBrace hf (commutes_readField hf) ts) ?_
  intro fields ts
  simp only [List.map_id]
  rfl

/-! ## Routes -/

theorem commutes_readStep : Commutes f errors id (readStep stop) (readStep stop') := by
  intro ts
  refine move_bind (commutes_word hf _ ts) ?_
  intro name ts
  simp only [id, eat_map hf]
  split_ifs
  · rfl
  · rcases eat .parenOpen ts with ⟨opened, rest⟩
    cases opened with
    | false => rfl
    | true =>
        refine move_bind (commutes_word hf _ rest) ?_
        intro schema ts
        refine move_bind (commutes_mark hf _ ts) ?_
        intro _ ts
        rfl
  · rfl

theorem startsStep_map (ts : List Token) : startsStep (ts.map f) = startsStep ts := by
  cases ts with
  | nil => rfl
  | cons t rest => simp only [List.map_cons, startsStep, hf.kind]

/-- Further steps of a route, each behind a comma. -/
theorem commutes_moreSteps (bracketed : Bool) :
    Commutes f errors id (moreSteps stop bracketed) (moreSteps stop' bracketed) := by
  intro ts
  rw [moreSteps_eq, moreSteps_eq stop, eat_map hf]
  rcases heat : eat .comma ts with ⟨_ | _, rest⟩
  · rfl
  simp only [startsStep_map hf, eat_map hf]
  split_ifs
  · rfl
  · rfl
  · rw [commutes_readStep hf]
    rcases hstep : readStep stop rest with e | ⟨first, later⟩
    · rfl
    · have hrest : rest.length ≤ ts.length := by simpa [heat] using length_eat_le .comma ts
      have hlater := length_of_readStep hstep
      simp only [Outcome.move]
      rw [commutes_moreSteps bracketed later]
      rcases moreSteps stop bracketed later with e | ⟨more, last⟩ <;> rfl
termination_by ts => ts.length

theorem commutes_verb (expected : Expectation) :
    Commutes f errors (fun v => (v.1, lines v.2)) (expect stop expected verb)
      (expect stop' expected verb) := by
  refine commutes_expect hf ?_ expected
  intro t
  simp only [verb, hf.kind, hf.line]
  cases t.kind <;> rfl

theorem commutes_readRoute :
    Commutes f errors (Route.mapLine lines) (readRoute stop) (readRoute stop') := by
  intro ts
  refine move_bind (commutes_verb hf _ ts) ?_
  intro v ts
  refine move_bind (commutes_string hf _ ts) ?_
  intro path ts
  refine move_bind (commutes_mark hf _ ts) ?_
  intro _ ts
  simp only [eat_map hf]
  rcases eat .bracketOpen ts with ⟨bracketed, ts⟩
  refine move_bind (commutes_readStep hf ts) ?_
  intro first ts
  refine move_bind (commutes_moreSteps hf bracketed ts) ?_
  intro more ts
  cases bracketed with
  | true =>
      refine move_bind (commutes_mark hf _ ts) ?_
      intro _ ts
      rfl
  | false => rfl

theorem skipLabel_map (ts : List Token) : skipLabel (ts.map f) = (skipLabel ts).map f := by
  cases ts with
  | nil => rfl
  | cons t rest =>
      simp only [List.map_cons, skipLabel, wordOrString_map hf]
      split <;> rfl

theorem commutes_routes :
    Commutes f errors (List.map (Route.mapLine lines)) (routes stop) (routes stop') := by
  intro ts
  have hopen := commutes_mark hf .braceOpen (skipLabel ts)
  rw [← skipLabel_map hf] at hopen
  refine move_bind hopen ?_
  intro _ ts
  exact commutes_untilBrace hf (commutes_readRoute hf) ts

/-! ## Migrations and imports -/

/-- An operation of a migration. -/
theorem commutes_readOperation :
    Commutes f errors id (readOperation stop) (readOperation stop') := by
  intro ts
  have hkind : Commutes f errors id
      (expect stop .operation fun t => word t >>= OperationWord.ofWord?)
      (expect stop' .operation fun t => word t >>= OperationWord.ofWord?) :=
    commutes_expect hf (fun t => by simp [word, hf.kind, hf.text]) .operation
  refine move_bind (hkind ts) ?_
  intro kind ts
  refine move_bind (commutes_string hf _ ts) ?_
  intro table ts
  cases kind with
  | addColumn =>
      refine move_bind (commutes_wordOrString hf _ ts) ?_
      intro column ts
      refine move_bind (commutes_word hf _ ts) ?_
      intro typeName ts
      rfl
  | dropColumn =>
      refine move_bind (commutes_wordOrString hf _ ts) ?_
      intro column ts
      rfl
  | createTable => rfl
  | dropTable => rfl

theorem commutes_migration (line : Nat) :
    Commutes f errors (Migration.mapLine lines) (migration stop line)
      (migration stop' (lines line)) := by
  intro ts
  refine move_bind (commutes_wordOrString hf _ ts) ?_
  intro version ts
  refine move_bind (commutes_mark hf _ ts) ?_
  intro _ ts
  refine move_bind (commutes_untilBrace hf (commutes_readOperation hf) ts) ?_
  intro operations ts
  simp only [List.map_id]
  rfl

theorem commutes_importing (line : Nat) :
    Commutes f errors (Import.mapLine lines) (importing stop line)
      (importing stop' (lines line)) := by
  intro ts
  refine move_bind (commutes_string hf _ ts) ?_
  intro path ts
  rfl

/-! ## Actions -/

/-- Parameters of an action up to the closing parenthesis. -/
theorem commutes_params : Commutes f errors id (params stop) (params stop') := by
  intro ts
  rcases ts with _ | ⟨t, rest⟩
  · exact move_unexpected hf .parameterOrClose []
  rw [List.map_cons, params.eq_def, params.eq_def stop]
  simp only [isMark_map hf, hf.kind, hf.text]
  split_ifs
  · rfl
  · rcases rest with _ | ⟨separator, later⟩
    · exact move_unexpected hf (.mark .parenClose) []
    simp only [List.map_cons, isMark_map hf]
    split_ifs
    · rw [commutes_params later]
      rcases params stop later with e | ⟨more, last⟩ <;> rfl
    · rfl
    · exact move_unexpected hf (.mark .parenClose) (separator :: later)
  · exact move_unexpected hf .parameterOrClose (t :: rest)
termination_by ts => ts.length

theorem commutes_signature : Commutes f errors id (signature stop) (signature stop') := by
  intro ts
  refine move_bind (commutes_word hf _ ts) ?_
  intro name ts
  refine move_bind (commutes_mark hf _ ts) ?_
  intro _ ts
  refine move_bind (commutes_params hf ts) ?_
  intro params ts
  rfl

variable {e : ParseError}

/-- A body that does not open fails at the same token. -/
theorem bodyBrace_map_error {ts : List Token}
    (h : bodyBrace stop ts = .error e) : bodyBrace stop' (ts.map f) = .error (errors e) := by
  have hmove := hf.unexpected .bodyOpen ts
  cases ts with
  | nil =>
      obtain rfl := Except.error.inj h
      exact congrArg Except.error hmove
  | cons t rest =>
      simp only [List.map_cons, bodyBrace, isMark_map hf] at h ⊢
      split_ifs at h ⊢
      obtain rfl := Except.error.inj h
      exact congrArg Except.error hmove

/-! ## Blocks -/

omit hf in
/-- Reading a block fails as reading its contents does, since nothing else can
go wrong in a block that is no action. -/
theorem lift_eq_error_iff {ts : Tokens} {toTree : α → Tree}
    {outcome : Except ParseError (α × List Token)} :
    lift ts toTree outcome = .error (.parse e) ↔ outcome = .error e := by
  rcases outcome with e' | ⟨a, items⟩ <;> simp [lift]

omit hf in
/-- An action is no action where its signature or its opening brace is none; its
body has errors of another kind. -/
theorem action_eq_error_iff {source : List UInt8} {line : Nat} {ts : Tokens} :
    action source line ts = .error (.parse e) ↔ signature ts.stop ts.items = .error e ∨
      ∃ a items, signature ts.stop ts.items = .ok (a, items) ∧
        bodyBrace ts.stop items = .error e := by
  unfold action
  rcases hsignature : signature ts.stop ts.items with e' | ⟨⟨name, params⟩, items⟩
  · simp [Except.mapError, bind, Except.bind]
  · rcases hbrace : bodyBrace ts.stop items with e' | brace
    · simp [Except.mapError, bind, Except.bind, hbrace]
    · rcases hlocate : Block.locate source brace.line with e' | n
      · simp [Except.mapError, bind, Except.bind, hbrace, hlocate]
      · rcases hextract : Block.extract source brace.offset with e' | body
        · simp [Except.mapError, bind, Except.bind, hbrace, hlocate, hextract]
        · simp [Except.mapError, bind, Except.bind, hbrace, hlocate, hextract, pure, Except.pure]

/-- A block that cannot be read fails at the same token after a change of
tokens. -/
theorem block_map_error {source : List UInt8} {t : Token} {items : List Token}
    (h : block source t ⟨items, stop⟩ = .error (.parse e)) (source' : List UInt8) :
    block source' (f t) ⟨items.map f, stop'⟩ = .error (.parse (errors e)) := by
  -- All blocks but the action are read from their tokens alone, by readers that commute.
  have hmove : ∀ {γ δ : Type} {g : γ → δ} {read : List Token → Outcome γ}
      {read' : List Token → Outcome δ}, Commutes f errors g read read' → read items = .error e →
        read' (items.map f) = .error (errors e) := by
    intro γ δ g read read' hread herror
    rw [hread, herror]
    rfl
  simp only [block, hf.kind, hf.line] at h ⊢
  split at h
  · rw [lift_eq_error_iff] at h ⊢
    exact hmove (commutes_schema hf _) h
  · rw [Except.map_eq_error_iff, action_eq_error_iff] at h ⊢
    rcases h with h | ⟨a, later, hsignature, hbrace⟩
    · exact .inl (hmove (commutes_signature hf) h)
    · refine .inr ⟨a, later.map f, ?_, bodyBrace_map_error hf hbrace⟩
      rw [commutes_signature hf items, hsignature]
      rfl
  · rw [lift_eq_error_iff] at h ⊢
    exact hmove (commutes_routes hf) h
  · rw [lift_eq_error_iff] at h ⊢
    exact hmove (commutes_migration hf _) h
  · rw [lift_eq_error_iff] at h ⊢
    exact hmove (commutes_importing hf _) h
  · obtain rfl := SyntaxError.parse.inj (Except.error.inj h)
    exact congrArg (Except.error ∘ SyntaxError.parse) (hf.unexpected .closingQuote [t])
  · cases h

omit hf in
theorem lift_map {g : α → α} {read read' : List Token → Outcome α} {toTree : α → Tree}
    (hread : Commutes f errors g read read')
    (hlines : ∀ a, toTree (g a) = (toTree a).mapLines lines) {items : List Token} {tree : Tree}
    {later : Tokens} (h : lift ⟨items, stop⟩ toTree (read items) = .ok (tree, later)) :
    lift ⟨items.map f, stop'⟩ toTree (read' (items.map f)) =
      .ok (tree.mapLines lines, ⟨later.items.map f, stop'⟩) := by
  obtain ⟨a, rest, ha, rfl, rfl⟩ := lift_eq_ok_iff.mp h
  rw [hread, ha, ← hlines]
  rfl

/-- A block that is no action is read alike after a change of tokens, and leaves
the same tokens behind, moved. -/
theorem block_map {source : List UInt8} {t : Token} {items : List Token} {tree : Tree}
    {later : Tokens} (hkind : t.kind ≠ .keyword .action)
    (h : block source t ⟨items, stop⟩ = .ok (tree, later)) (source' : List UInt8) :
    block source' (f t) ⟨items.map f, stop'⟩ =
      .ok (tree.mapLines lines, ⟨later.items.map f, stop'⟩) := by
  simp only [block, hf.kind, hf.line] at h ⊢
  split at h
  · exact lift_map (commutes_schema hf _) (fun _ => rfl) h
  next haction => exact absurd haction hkind
  · exact lift_map (commutes_routes hf) (fun _ => rfl) h
  · exact lift_map (commutes_migration hf _) (fun _ => rfl) h
  · exact lift_map (commutes_importing hf _) (fun _ => rfl) h
  · cases h
  · obtain ⟨rfl, rfl⟩ := Prod.mk.inj (Except.ok.inj h)
    rfl

end

end Parser

end BlockLang
