import BlockLang.Proofs.Cursors

/-! # Runs of the parser with a cursor

Wherever the cursor stands, the items from it on are tokens and an end that the rules of the
grammar can be read from. Each procedure of the machine gives what its rule gives and leaves the
cursor where the rule leaves off, and each turn of a loop uses up an item. So a run ends, with the
tree or the error of the source.
-/

namespace BlockLang

/-! ## Cursors at tokens -/

/-- The item at the head of the tokens: the first of them, or the end if there
is none. -/
def Tokens.first (ts : Tokens) : Cursor.Item :=
  match ts.items with
  | [] => .ending ts.stop
  | t :: _ => .token t

theorem Tokens.entries_cons (t : Token) (items : List Token) (stop : Position) :
    (⟨t :: items, stop⟩ : Tokens).entries = .token t :: (⟨items, stop⟩ : Tokens).entries := rfl

theorem Tokens.entries_append (used rest : List Token) (stop : Position) :
    (⟨used ++ rest, stop⟩ : Tokens).entries =
      used.map .token ++ (⟨rest, stop⟩ : Tokens).entries := by
  simp [entries]

theorem Tokens.entries_eq_cons (ts : Tokens) : ∃ later, ts.entries = ts.first :: later := by
  obtain ⟨items, stop⟩ := ts
  cases items with
  | nil => exact ⟨[], rfl⟩
  | cons t items => exact ⟨_, rfl⟩

theorem Tokens.increasing_behind (source : List UInt8) (n : Nat) :
    (behind source n).entries.Pairwise (·.offset < ·.offset) := by
  have hplaced := placed_behind source n
  refine List.pairwise_append.mpr
    ⟨List.pairwise_map.mpr hplaced.increasing, List.pairwise_singleton _ _, ?_⟩
  simpa [Cursor.Item.offset, Cursor.Item.position, hplaced.stop] using hplaced.inside

theorem Tokens.le_offset_of_mem {source : List UInt8} {n : Nat} {i : Cursor.Item}
    (hn : n ≤ source.length) (hi : i ∈ (behind source n).entries) : n ≤ i.offset := by
  rcases List.mem_append.mp hi with hi | hi
  · obtain ⟨u, hu, rfl⟩ := List.mem_map.mp hi
    obtain ⟨before, after, hitems⟩ := List.append_of_mem hu
    exact (behind_of_mem hitems).1
  · obtain rfl := List.mem_singleton.mp hi
    simpa [Cursor.Item.offset, Cursor.Item.position, (placed_behind source n).stop] using hn

namespace Cursor

/-- Whether a sane cursor has these tokens ahead. The tokens that it has passed
are not said, as no reader can see them. -/
structure At (c : Cursor) (ts : Tokens) : Prop where
  sane : c.Sane
  ahead : c.items.drop c.pos = ts.entries

variable {c : Cursor} {ts : Tokens} {t : Token} {rest : List Token} {stop : Position}

theorem At.current (h : c.At ts) : c.current = some ts.first := by
  obtain ⟨later, hlater⟩ := ts.entries_eq_cons
  rw [Cursor.current, ← List.head?_drop, h.ahead, hlater, List.head?_cons]

theorem At.token? (h : c.At ts) : c.token? = ts.items.head? := by
  obtain ⟨items, stop⟩ := ts
  rw [Cursor.token?, h.current]
  cases items <;> rfl

/-- The error at a cursor is the one that the tokens ahead of it give, also at
the end of the source. -/
theorem At.unexpected (h : c.At ts) (expected : Expectation) :
    c.unexpected expected = Parser.unexpected ts.stop expected ts.items := by
  obtain ⟨items, stop⟩ := ts
  rw [Cursor.unexpected, h.current]
  cases items <;> rfl

theorem At.isAt (h : c.At ts) (m : Mark) : c.isAt m = (Parser.eat m ts.items).1 := by
  obtain ⟨items, stop⟩ := ts
  rw [Cursor.isAt, h.token?]
  cases items with
  | nil => rfl
  | cons t rest =>
      rw [List.head?_cons, Option.any_some, Parser.eat]
      split
      · assumption
      · next hmark => exact Bool.eq_false_iff.mpr hmark

/-- Looking one item ahead of the cursor is looking at the second token. -/
theorem At.stepAhead (h : c.At ⟨t :: rest, stop⟩) : c.stepAhead = Parser.startsStep rest := by
  have hnext : c.items[c.pos + 1]? = (⟨rest, stop⟩ : Tokens).entries.head? := by
    rw [← List.getElem?_drop, h.ahead, Tokens.entries_cons, List.getElem?_cons_succ,
      List.head?_eq_getElem?]
  rw [Cursor.stepAhead, hnext]
  cases rest <;> rfl

theorem At.increasing (h : c.At ts) : ts.entries.Pairwise (·.offset < ·.offset) := by
  rw [← h.ahead]
  exact h.sane.increasing.drop

/-- What is left behind some tokens begins at a larger offset. -/
theorem At.first_lt {u : List Token} (h : c.At ⟨u ++ rest, stop⟩) (hu : u ≠ []) :
    (Tokens.first ⟨u ++ rest, stop⟩).offset < (Tokens.first ⟨rest, stop⟩).offset := by
  have hincreasing := h.increasing
  obtain ⟨later, hlater⟩ := (⟨rest, stop⟩ : Tokens).entries_eq_cons
  cases u with
  | nil => exact absurd rfl hu
  | cons t used =>
      rw [List.cons_append, Tokens.entries_cons, Tokens.entries_append, hlater] at hincreasing
      exact (List.pairwise_cons.mp hincreasing).1 _ (List.mem_append_right _ List.mem_cons_self)

theorem At.first_lt_cons (h : c.At ⟨t :: rest, stop⟩) :
    (Tokens.first ⟨t :: rest, stop⟩).offset < (Tokens.first ⟨rest, stop⟩).offset :=
  h.first_lt (u := [t]) (List.cons_ne_nil t [])

/-- Behind a token there is an item, so the cursor moves on. -/
theorem At.advance (h : c.At ⟨t :: rest, stop⟩) :
    c.advance = { c with pos := c.pos + 1 } ∧ c.advance.At ⟨rest, stop⟩ := by
  have hlength := congrArg List.length h.ahead
  simp only [List.length_drop, Tokens.entries_cons, List.length_cons] at hlength
  have hrest : 0 < (⟨rest, stop⟩ : Tokens).entries.length := by simp [Tokens.entries]
  have hvalid : c.pos + 1 < c.items.length := by omega
  have hadvance : c.advance = { c with pos := c.pos + 1 } := if_pos hvalid
  refine ⟨hadvance, ?_⟩
  rw [hadvance]
  refine ⟨⟨h.sane.ends, hvalid, h.sane.increasing⟩, ?_⟩
  rw [← List.tail_drop, h.ahead, Tokens.entries_cons, List.tail_cons]

/-! ## Behind a body -/

/-- Where the closing brace of a body is looked for: at the first token that
does not lie before its offset, if there is one. -/
theorem At.closing?_eq (h : c.At ⟨rest, stop⟩) (n : Nat) :
    rest.dropWhile (·.position.offset < n) = [] ∧ c.closing? n = none ∨
      ∃ i u later, rest.dropWhile (·.position.offset < n) = u :: later ∧
        c.items.drop i = (⟨u :: later, stop⟩ : Tokens).entries ∧ c.closing? n =
          if u.position.offset = n ∧ Parser.isMark .braceClose u then some i else none := by
  obtain ⟨i, hi⟩ : ∃ i, c.pos + ((c.items.drop c.pos).takeWhile (·.offset < n)).length = i :=
    ⟨_, rfl⟩
  have hdrop : c.items.drop i = (c.items.drop c.pos).dropWhile (·.offset < n) := by
    rw [← hi, ← List.drop_drop]
    nth_rewrite 2 [← List.takeWhile_append_dropWhile (p := (·.offset < n))
      (l := c.items.drop c.pos)]
    exact List.drop_left
  have hoffset : (fun i : Item => decide (i.offset < n)) ∘ .token =
      fun t : Token => decide (t.position.offset < n) := rfl
  rw [h.ahead, Tokens.entries, List.dropWhile_append, List.dropWhile_map, hoffset] at hdrop
  rw [closing?, hi, ← List.head?_drop]
  rcases hleft : rest.dropWhile (·.position.offset < n) with _ | ⟨u, later⟩
  · refine .inl ⟨hleft, ?_⟩
    rw [hdrop, hleft, List.map_nil, List.isEmpty_nil, if_pos rfl, List.dropWhile_cons]
    split_ifs <;> rfl
  · rw [hleft] at hdrop
    refine .inr ⟨i, u, later, hleft, hdrop, ?_⟩
    rw [hdrop]
    rfl

/-- Tokens that are made anew take the place of those from the cursor on, and
lie behind those that were passed. -/
theorem At.refill {source : List UInt8} {n : Nat} (h : c.At ⟨t :: rest, stop⟩)
    (ht : t.position.offset < n) (hn : n ≤ source.length) :
    ({ c with items := c.items.take c.pos ++ (Tokens.behind source n).entries } : Cursor).At
      (Tokens.behind source n) := by
  have hlength : (c.items.take c.pos).length = c.pos :=
    List.length_take_of_le (Nat.le_of_lt h.sane.valid)
  obtain ⟨ts, hts⟩ := h.sane.ends
  have htokens : c.items.take c.pos = (ts.items.take c.pos).map .token := by
    have hvalid := h.sane.valid
    rw [hts, Tokens.entries, List.length_append, List.length_map, List.length_singleton] at hvalid
    rw [hts, Tokens.entries, List.take_append_of_le_length (by rw [List.length_map]; omega),
      List.map_take]
  refine ⟨⟨⟨⟨ts.items.take c.pos ++ (Tokens.behind source n).items, (Tokens.behind source n).stop⟩,
    ?_⟩, ?_, ?_⟩, List.drop_left' hlength⟩
  · rw [htokens, ← Tokens.entries_append]
  · rw [List.length_append, hlength]
    simp [Tokens.entries]
  · refine List.pairwise_append.mpr ⟨h.sane.increasing.take, Tokens.increasing_behind source n, ?_⟩
    -- What is left of the old items lies before the token at the cursor, and that before `n`.
    intro i hi j hj
    have hincreasing := h.sane.increasing
    rw [← List.take_append_drop c.pos c.items, h.ahead] at hincreasing
    have hit := (List.pairwise_append.mp hincreasing).2.2 i hi (.token t) List.mem_cons_self
    exact Nat.lt_trans hit (Nat.lt_of_lt_of_le ht (Tokens.le_offset_of_mem hn hj))

/-- The cursor behind a body has the tokens ahead that the parser goes on with,
whichever of the two ways is taken. -/
theorem At.skipBody {source : List UInt8} {block : Block} (h : c.At ⟨t :: rest, stop⟩)
    (hblock : Block.extract source t.position.offset = .ok block) :
    (c.skipBody source block).At (Parser.skipBody source block ⟨t :: rest, stop⟩) := by
  obtain ⟨hlt, hle⟩ := Parser.closeOffset_lt hblock
  have hrefill := h.refill (n := block.endOffset) (Nat.lt_succ_of_lt hlt) hle
  rw [Cursor.skipBody, Parser.skipBody]
  rcases h.closing?_eq block.closeOffset with
    ⟨hdrop, hnone⟩ | ⟨i, u, later, hdrop, hahead, hclosing⟩
  · rw [hnone, hdrop]
    exact hrefill
  · rw [hclosing, hdrop]
    simp only
    split_ifs
    · have hlater : c.items.drop (i + 1) = (⟨later, stop⟩ : Tokens).entries := by
        rw [← List.tail_drop, hahead]
        rfl
      refine ⟨⟨h.sane.ends, ?_, h.sane.increasing⟩, hlater⟩
      have hlength := congrArg List.length hlater
      simp only [List.length_drop, Tokens.entries, List.length_append,
        List.length_singleton] at hlength
      simp only
      omega
    · exact hrefill

end Cursor

/-! ## What a machine gives -/

/-- Whether a run has come to these tokens, and nothing bad has been noted of
it. This is the invariant of all runs. -/
structure Trace.At (s : Trace) (ts : Tokens) : Prop where
  cursor : s.cursor.At ts
  events : ∀ e ∈ s.events, e.Good

namespace Machine

variable {α β σ : Type} {m : Machine α} {f : α → Machine β} {s s' : Trace} {ts later : Tokens}
  {stop : Position} {items rest : List Token}

/-- One machine after another: the second starts in the state that the first has
left, unless there was an error. -/
theorem exec_bind (m : Machine α) (f : α → Machine β) (s : Trace) : (m >>= f).exec s =
    (m.exec s).bind fun r => match r.1 with
      | .ok a => (f a).exec r.2
      | .error e => .some (.error e, r.2) := by
  simp only [exec, ExceptT.run_bind, StateT.run_bind, Part.bind_eq_bind]
  congr 1
  funext r
  rcases r with ⟨e | a, s'⟩ <;> rfl

theorem exec_bind_ok {a : α} (h : m.exec s = .some (.ok a, s')) :
    (m >>= f).exec s = (f a).exec s' := by
  rw [exec_bind, h, Part.bind_some]

theorem exec_bind_error {e : SyntaxError} (h : m.exec s = .some (.error e, s')) :
    (m >>= f).exec s = .some (.error e, s') := by
  rw [exec_bind, h, Part.bind_some]

theorem exec_cursor (s : Trace) : cursor.exec s = .some (.ok s.cursor, s) := by
  have hget : (get : Machine Trace).exec s = .some (.ok s, s) :=
    Part.bind_some (s, s) fun r => .some (Except.ok (ε := SyntaxError) r.1, r.2)
  exact exec_bind_ok hget

theorem exec_modify (f : Trace → Trace) (s : Trace) :
    (modify f : Machine Unit).exec s = .some (.ok (), f s) :=
  Part.bind_some ((), f s) fun r => .some (Except.ok (ε := SyntaxError) r.1, r.2)

theorem exec_moveTo (c : Cursor) (s : Trace) :
    (moveTo c).exec s = .some (.ok (), ⟨c, s.events ++ [.moved c]⟩) :=
  (exec_bind_ok (exec_modify _ s)).trans (exec_modify _ _)

theorem exec_pass (s : Trace) : pass.exec s =
    .some (.ok (), ⟨s.cursor.advance, s.events ++ [.moved s.cursor.advance]⟩) :=
  (exec_bind_ok (exec_cursor s)).trans (exec_moveTo _ s)

/-- Whether a machine ends from a state on, with a result or an error, and
nothing bad is noted of it. -/
inductive Gives (m : Machine α) (s : Trace) : Except SyntaxError (α × Tokens) → Prop
  | ok {a : α} {later : Tokens} {s' : Trace} (hexec : m.exec s = .some (.ok a, s'))
      (hat : s'.At later) : Gives m s (.ok (a, later))
  | error {e : SyntaxError} {s' : Trace} (hexec : m.exec s = .some (.error e, s'))
      (hevents : ∀ e ∈ s'.events, e.Good) : Gives m s (.error e)

theorem gives_pure (h : s.At ts) (a : α) : (pure a : Machine α).Gives s (.ok (a, ts)) :=
  .ok rfl h

theorem Gives.of_exec {m' : Machine α} {outcome : Except SyntaxError (α × Tokens)}
    (h : m.Gives s outcome) (hexec : m'.exec s' = m.exec s) : m'.Gives s' outcome := by
  cases h with
  | ok hm hat => exact .ok (hexec.trans hm) hat
  | error hm hevents => exact .error (hexec.trans hm) hevents

theorem gives_cursor {f : Cursor → Machine β} {outcome : Except SyntaxError (β × Tokens)}
    (h : (f s.cursor).Gives s outcome) : (cursor >>= f).Gives s outcome :=
  h.of_exec (exec_bind_ok (exec_cursor s))

/-- A machine that ends well is followed by the next, from whatever state it may
have left. -/
theorem Gives.bind_ok {a : α} {outcome : Except SyntaxError (β × Tokens)}
    (hm : m.Gives s (.ok (a, later))) (hf : ∀ s', s'.At later → (f a).Gives s' outcome) :
    (m >>= f).Gives s outcome := by
  cases hm with
  | @ok _ _ s' hexec hat => exact (hf s' hat).of_exec (exec_bind_ok hexec)

theorem Gives.bind_error {e : SyntaxError} (hm : m.Gives s (.error e)) :
    (m >>= f).Gives s (.error e) := by
  cases hm with
  | error hexec hevents => exact .error (exec_bind_error hexec) hevents

theorem Gives.map {outcome : Except SyntaxError (α × Tokens)} (g : α → β)
    (hm : m.Gives s outcome) : (m >>= fun a => pure (g a)).Gives s
      (outcome.map fun found => (g found.1, found.2)) := by
  rcases outcome with e | found
  · exact hm.bind_error
  · exact hm.bind_ok fun s' hs' => gives_pure hs' _

theorem gives_fail (h : s.At ts) (expected : Expectation) : (fail expected : Machine α).Gives s
    (.error (.parse (Parser.unexpected ts.stop expected ts.items))) := by
  have hexec : (fail expected : Machine α).exec s =
      .some (.error (.parse (s.cursor.unexpected expected)), s) := exec_bind_ok (exec_cursor s)
  rw [h.cursor.unexpected] at hexec
  exact .error hexec h.events

theorem gives_note {e : Event} (h : s.At ts) (he : e.Good) : (note e).Gives s (.ok ((), ts)) := by
  refine .ok (exec_modify _ s) ⟨h.cursor, ?_⟩
  exact List.forall_mem_append.mpr ⟨h.events, List.forall_mem_singleton.mpr he⟩

theorem gives_moveTo {c : Cursor} (h : s.At ts) (hc : c.At later) :
    (moveTo c).Gives s (.ok ((), later)) := by
  refine .ok (exec_moveTo c s) ⟨hc, ?_⟩
  exact List.forall_mem_append.mpr ⟨h.events, List.forall_mem_singleton.mpr hc.sane⟩

variable {t : Token}

theorem gives_pass (h : s.At ⟨t :: rest, stop⟩) : pass.Gives s (.ok ((), ⟨rest, stop⟩)) :=
  gives_cursor (gives_moveTo h h.cursor.advance.2)

theorem gives_passing (h : s.At ⟨t :: rest, stop⟩) (a : α) :
    (pass >>= fun _ => pure a).Gives s (.ok (a, ⟨rest, stop⟩)) :=
  (gives_pass h).bind_ok fun _ hs' => gives_pure hs' a

/-! ## Loops -/

section Loops

variable {kind : Loop} {step : σ → Machine (σ ⊕ β)} {state next : σ}
  {outcome : Except SyntaxError (β × Tokens)}

theorem exec_loop_end {found : Except SyntaxError (σ ⊕ β) × Trace}
    {result : Except SyntaxError β × Trace} (hturn : (turn kind step state).exec s = .some found)
    (hend : afterTurn found = .inl result) : (loop kind step state).exec s = .some result := by
  refine Part.eq_some_iff.mpr (PFun.fix_stop ?_)
  rw [hturn, Part.map_some, hend]
  exact Part.mem_some _

theorem exec_loop_next (hturn : (turn kind step state).exec s = .some (.ok (.inl next), s')) :
    (loop kind step state).exec s = (loop kind step next).exec s' := by
  refine PFun.fix_fwd_eq ?_
  rw [hturn, Part.map_some]
  exact Part.mem_some _

theorem gives_loop_error {e : SyntaxError} (h : (step state).Gives s (.error e)) :
    (loop kind step state).Gives s (.error e) := by
  have hturn : (turn kind step state).Gives s (.error e) := gives_cursor h.bind_error
  cases hturn with
  | error hexec hevents => exact .error (exec_loop_end hexec rfl) hevents

theorem gives_loop_last {b : β} (h : (step state).Gives s (.ok (.inr b, later))) :
    (loop kind step state).Gives s (.ok (b, later)) := by
  have hturn : (turn kind step state).Gives s (.ok (.inr b, later)) :=
    gives_cursor (h.bind_ok fun s' hs' => gives_pure hs' _)
  cases hturn with
  | ok hexec hat => exact .ok (exec_loop_end hexec rfl) hat

/-- A loop goes on behind a turn that leads further into the source. -/
theorem gives_loop_turn (hs : s.At ts) (h : (step state).Gives s (.ok (.inl next, later)))
    (hlt : ts.first.offset < later.first.offset)
    (hnext : ∀ s', s'.At later → (loop kind step next).Gives s' outcome) :
    (loop kind step state).Gives s outcome := by
  have hturn : (turn kind step state).Gives s (.ok (.inl next, later)) := by
    apply gives_cursor
    apply h.bind_ok
    intro s' hs'
    apply gives_cursor
    have hgood : (Event.turned kind s.cursor s'.cursor).Good :=
      ⟨hs.cursor.sane, hs'.cursor.sane, _, _, hs.cursor.current, hs'.cursor.current, hlt⟩
    exact (gives_note hs' hgood).bind_ok fun s'' hs'' => gives_pure hs'' _
  cases hturn with
  | ok hexec hat => exact (hnext _ hat).of_exec (exec_loop_next hexec)

end Loops

/-! ## Rules -/

def reached (stop : Position) :
    Except ParseError (α × List Token) → Except SyntaxError (α × Tokens)
  | .ok (a, rest) => .ok (a, ⟨rest, stop⟩)
  | .error e => .error (.parse e)

/-- Whether a machine gives what reading tokens gives, from every state that has
the tokens ahead. -/
def Follows (m : Machine α) (stop : Position) (read : List Token → Parser.Outcome α) : Prop :=
  ∀ ⦃s items⦄, s.At ⟨items, stop⟩ → m.Gives s (reached stop (read items))

theorem follows_pure (a : α) : (pure a : Machine α).Follows stop fun items => .ok (a, items) :=
  fun _ _ h => gives_pure h a

/-- Machines in a row give what reading in a row gives. -/
theorem Follows.bind {read : List Token → Parser.Outcome α}
    {g : α × List Token → Parser.Outcome β} (hm : m.Follows stop read)
    (hf : ∀ a, (f a).Follows stop fun items => g (a, items)) :
    (m >>= f).Follows stop fun items => (read items >>= g : Except _ _) := by
  intro s items h
  have hgives := hm h
  beta_reduce
  rcases hread : read items with e | found
  · rw [hread] at hgives
    exact hgives.bind_error
  · rw [hread] at hgives
    exact hgives.bind_ok fun s' hs' => hf found.1 hs'

theorem gives_take {accept : Token → Option α} {a : α} (expected : Expectation)
    (h : s.At ⟨t :: rest, stop⟩) (ht : accept t = some a) :
    (take expected accept).Gives s (.ok (a, ⟨rest, stop⟩)) := by
  apply gives_cursor
  rw [h.cursor.token?, List.head?_cons, Option.bind_eq_bind, Option.bind_some, ht]
  exact gives_passing h a

theorem gives_take_none {accept : Token → Option α} (expected : Expectation)
    (h : s.At ⟨items, stop⟩) (hnone : items.head?.bind accept = none) :
    (take expected accept).Gives s (.error (.parse (Parser.unexpected stop expected items))) := by
  apply gives_cursor
  rw [h.cursor.token?, Option.bind_eq_bind, hnone]
  exact gives_fail h expected

theorem follows_take (expected : Expectation) (accept : Token → Option α) :
    (take expected accept).Follows stop (Parser.expect stop expected accept) := by
  intro s items h
  cases items with
  | nil => exact gives_take_none expected h rfl
  | cons t rest =>
      rw [Parser.expect]
      cases haccept : accept t with
      | none => exact gives_take_none expected h haccept
      | some a => exact gives_take expected h haccept

/-- A mark at the cursor is passed; without it nothing happens, and nothing is
noted. -/
theorem gives_eat {mark : Mark} {ate : Bool} (h : s.At ⟨items, stop⟩)
    (heat : Parser.eat mark items = (ate, rest)) :
    (eat mark).Gives s (.ok (ate, ⟨rest, stop⟩)) := by
  have hat := h.cursor.isAt mark
  rw [heat] at hat
  apply gives_cursor
  rw [hat]
  cases ate with
  | true =>
      obtain ⟨t, rfl, -⟩ := Parser.eat_eq_true_iff.mp heat
      exact gives_passing h true
  | false =>
      obtain ⟨rfl, -⟩ := Parser.eat_eq_false_iff.mp heat
      exact gives_pure h false

/-- A machine that looks for a mark first gives what a reader does that looks
for it first, with or without the mark. -/
theorem follows_eat (mark : Mark) {f : Bool → Machine β} {read : List Token → Parser.Outcome β}
    (k : Bool → List Token → Parser.Outcome β)
    (hread : ∀ {b items rest}, Parser.eat mark items = (b, rest) → read items = k b rest)
    (hk : ∀ b, (f b).Follows stop (k b)) : (eat mark >>= f).Follows stop read := by
  intro s items h
  rcases heat : Parser.eat mark items with ⟨ate, rest⟩
  rw [hread heat]
  exact (gives_eat h heat).bind_ok fun s' hs' => hk ate hs'

theorem follows_takeMark (mark : Mark) :
    (takeMark mark).Follows stop (Parser.expectMark stop mark) := by
  intro s items h
  cases items with
  | nil => exact (gives_eat h rfl).bind_ok fun s' hs' => gives_fail hs' (.mark mark)
  | cons t rest =>
      rw [Parser.expectMark, Parser.expect]
      by_cases ht : Parser.isMark mark t = true
      · rw [if_pos ht]
        exact (gives_eat h (if_pos ht)).bind_ok fun s' hs' => gives_pure hs' ()
      · rw [if_neg ht]
        exact (gives_eat h (if_neg ht)).bind_ok fun s' hs' => gives_fail hs' (.mark mark)

theorem gives_takeText {f : String → Machine β} {outcome : Except SyntaxError (β × Tokens)}
    (h : s.At ⟨t :: rest, stop⟩)
    (hf : ∀ s', s'.At ⟨rest, stop⟩ → s'.cursor = s.cursor.advance →
      (f t.text).Gives s' outcome) : (takeText >>= f).Gives s outcome := by
  have hexec : takeText.exec s = .some (.ok ((s.cursor.token?.map Token.text).getD ""),
      ⟨s.cursor.advance, s.events ++ [.moved s.cursor.advance]⟩) :=
    (exec_bind_ok (exec_cursor s)).trans (exec_bind_ok (exec_pass s))
  have hat := h.cursor.advance.2
  rw [h.cursor.token?] at hexec
  refine (hf _ ⟨hat, ?_⟩ rfl).of_exec (exec_bind_ok hexec)
  exact List.forall_mem_append.mpr ⟨h.events, List.forall_mem_singleton.mpr hat.sane⟩

/-- What is read behind a keyword has its line, which is known before the
keyword is passed. -/
theorem gives_takeLine {f : Nat → Machine β} {outcome : Except SyntaxError (β × Tokens)}
    (h : s.At ⟨t :: rest, stop⟩)
    (hf : ∀ s', s'.At ⟨rest, stop⟩ → (f t.position.line).Gives s' outcome) :
    (takeLine >>= f).Gives s outcome := by
  have hline : takeLine.Gives s (.ok (t.position.line, ⟨rest, stop⟩)) := by
    apply gives_cursor
    rw [h.cursor.current]
    exact gives_passing h t.position.line
  exact hline.bind_ok hf

theorem Follows.behind {f : Nat → Machine β} {read : List Token → Parser.Outcome β}
    (hf : (f t.position.line).Follows stop read) (h : s.At ⟨t :: rest, stop⟩) :
    (takeLine >>= f).Gives s (reached stop (read rest)) := gives_takeLine h fun _ hs' => hf hs'

/-! ## Lists between braces -/

/-- Skipping commas is a loop with a comma in each turn. -/
theorem gives_skipCommas (h : s.At ⟨items, stop⟩) :
    skipCommas.Gives s (.ok ((), ⟨Parser.skipCommas items, stop⟩)) := by
  induction items generalizing s with
  | nil => exact gives_loop_last ((gives_eat h rfl).bind_ok fun s' hs' => gives_pure hs' _)
  | cons t rest ih =>
      rw [Parser.skipCommas, List.dropWhile_cons]
      split
      next hcomma =>
        apply gives_loop_turn h ((gives_eat h (if_pos hcomma)).bind_ok
          fun s' hs' => gives_pure hs' (Sum.inl ()))
        · exact h.cursor.first_lt (u := [t]) (List.cons_ne_nil t [])
        · exact fun s' hs' => ih hs'
      next hcomma =>
        exact gives_loop_last ((gives_eat h (if_neg hcomma)).bind_ok
          fun s' hs' => gives_pure hs' _)

def appended (read : List α) (outcome : Parser.Outcome (List α)) : Parser.Outcome (List α) :=
  outcome.map fun found => (read ++ found.1, found.2)

theorem appended_nil (outcome : Parser.Outcome (List α)) : appended [] outcome = outcome := by
  rcases outcome with e | found <;> rfl

theorem Follows.bind_appended {m : Machine (List α)} {f : List α → Machine β} {read : List α}
    {reader : List Token → Parser.Outcome (List α)} {g : List α × List Token → Parser.Outcome β}
    (hm : m.Follows stop fun items => appended read (reader items))
    (hf : ∀ more, (f (read ++ more)).Follows stop fun items => g (more, items)) :
    (m >>= f).Follows stop fun items => (reader items >>= g : Except _ _) := by
  intro s items h
  have hgives := hm h
  beta_reduce at hgives ⊢
  rcases hread : reader items with e | found
  · rw [hread] at hgives
    exact hgives.bind_error
  · rw [hread] at hgives
    exact hgives.bind_ok fun s' hs' => hf found.1 hs'

section Items

variable {kind : Loop} {item : Machine α} {phrase : Grammar.Phrase α} {ends : List Token → Prop}

/-- One more item behind those that were read. -/
theorem gives_item {rule : Parser.Rule α} {read : List α} {a : α} {later : List Token}
    {outcome : Except SyntaxError (List α × Tokens)}
    (hrule : Parser.Recognizes rule.read phrase ends) (hitem : item.Follows stop rule.read)
    (h : s.At ⟨items, stop⟩)
    (heat : Parser.eat .braceClose (Parser.skipCommas items) = (false, rest))
    (hread : rule.read rest = .ok (a, later))
    (hnext : ∀ s', s'.At ⟨later, stop⟩ →
      (loop kind (itemTurn item) (read ++ [a])).Gives s' outcome) :
    (loop kind (itemTurn item) read).Gives s outcome := by
  refine gives_loop_turn h ((gives_skipCommas h).bind_ok fun s' hs' =>
    (gives_eat hs' heat).bind_ok fun s'' hs'' => ?_) ?_ hnext
  · have hgives := hitem hs''
    rw [hread] at hgives
    exact hgives.bind_ok fun s₁ hs₁ => gives_pure hs₁ _
  · -- Behind the commas the item uses up a token.
    obtain ⟨commas, hcommas, -⟩ := Parser.exists_commas items
    obtain ⟨hrest, -⟩ := Parser.eat_eq_false_iff.mp heat
    obtain ⟨used, hused, -⟩ := hrule.sound hread
    have hprogress := rule.progress hread
    rw [hrest, hused, ← List.append_assoc] at hcommas
    rw [hcommas] at h ⊢
    refine h.cursor.first_lt fun hnil => ?_
    rw [hused, (List.append_eq_nil_iff.mp hnil).2] at hprogress
    exact Nat.lt_irrefl _ hprogress

/-- Items up to a closing brace are read as the rule of an item repeats. -/
theorem follows_items (rule : Parser.Rule α) (hrule : Parser.Recognizes rule.read phrase ends)
    (hitem : item.Follows stop rule.read) (read : List α) :
    (loop kind (itemTurn item) read).Follows stop
      fun items => appended read (rule.untilBrace items) := by
  intro s items h
  beta_reduce
  fun_induction rule.untilBrace items generalizing s read with
  | case1 items rest heat =>
      refine gives_loop_last ((gives_skipCommas h).bind_ok fun s' hs' =>
        (gives_eat hs' heat).bind_ok fun s'' hs'' => ?_)
      rw [List.append_nil]
      exact gives_pure hs'' _
  | case2 items rest heat e hread =>
      refine gives_loop_error ((gives_skipCommas h).bind_ok fun s' hs' =>
        (gives_eat hs' heat).bind_ok fun s'' hs'' => ?_)
      have hgives := hitem hs''
      rw [hread] at hgives
      exact hgives.bind_error
  | case3 items rest heat a later hread _ e hmore ih =>
      refine gives_item hrule hitem h heat hread fun s' hs' => ?_
      simpa [hmore, appended, Except.map] using ih (read ++ [a]) hs'
  | case4 items rest heat a later hread _ more last hmore ih =>
      refine gives_item hrule hitem h heat hread fun s' hs' => ?_
      simpa [hmore, appended, Except.map] using ih (read ++ [a]) hs'

theorem follows_untilBrace (rule : Parser.Rule α)
    (hrule : Parser.Recognizes rule.read phrase ends) (hitem : item.Follows stop rule.read) :
    (untilBrace kind item).Follows stop rule.untilBrace := by
  intro s items h
  rw [← appended_nil (rule.untilBrace items)]
  exact follows_items rule hrule hitem [] h

end Items

/-! ## Schemas -/

theorem gives_argument {read : Arguments × List String}
    {outcome : Except SyntaxError ((Arguments × List String ⊕ Arguments) × Tokens)}
    (h : s.At ⟨t :: rest, stop⟩) (hat : (argumentAt read t).Gives s outcome) :
    (argumentTurn read).Gives s outcome := by
  apply gives_cursor
  rw [h.cursor.token?]
  exact hat

/-- The loop over arguments gives what the parser gives by recursion. -/
theorem follows_arguments (keyed : Arguments) (variants : List String) :
    (loop .arguments argumentTurn (keyed, variants)).Follows stop
      (Parser.arguments stop keyed variants) := by
  intro s items h
  have hend {s : Trace} (h : s.At ⟨[], stop⟩) (read : Arguments × List String) :
      (loop .arguments argumentTurn read).Gives s
        (.error (.parse (Parser.unexpected stop .argumentOrClose []))) := by
    refine gives_loop_error (gives_cursor ?_)
    rw [h.cursor.token?]
    exact gives_fail h .argumentOrClose
  -- Each case passes one item and leaves the rest to the next turn, or stops the loop.
  fun_induction Parser.arguments stop keyed variants items generalizing s with
  | case1 => exact hend h _
  | case2 keyed variants t rest hclose =>
      refine gives_loop_last (gives_argument h ?_)
      rw [argumentAt, if_pos hclose]
      exact gives_passing h _
  | case3 keyed variants t rest hclose hcomma ih =>
      refine gives_loop_turn h (gives_argument h ?_) h.cursor.first_lt_cons fun s' hs' => ih hs'
      rw [argumentAt, if_neg hclose, if_pos hcomma]
      exact gives_passing h _
  | case4 keyed variants t rest hclose hcomma hvalue ih =>
      refine gives_loop_turn h (gives_argument h ?_) h.cursor.first_lt_cons fun s' hs' => ih hs'
      rw [argumentAt, if_neg hclose, if_neg hcomma, if_pos hvalue]
      exact gives_takeText h fun s' hs' _ => gives_pure hs' _
  | case5 keyed variants t hclose hcomma hvalue hword =>
      refine gives_loop_turn h (gives_argument h ?_) h.cursor.first_lt_cons
        fun s' hs' => hend hs' (keyed, variants ++ [t.text])
      rw [argumentAt, if_neg hclose, if_neg hcomma, if_neg hvalue, if_pos hword]
      exact gives_takeText h fun s' hs' _ =>
        (gives_eat hs' rfl).bind_ok fun s'' hs'' => gives_pure hs'' _
  | case6 keyed variants t hclose hcomma hvalue hword colon hcolon =>
      refine gives_loop_error (gives_argument h ?_)
      rw [argumentAt, if_neg hclose, if_neg hcomma, if_neg hvalue, if_pos hword]
      exact gives_takeText h fun s' hs' _ => (gives_eat hs' (if_pos hcolon)).bind_ok
        fun s'' hs'' => .bind_error (gives_take_none _ hs'' rfl)
  | case7 keyed variants t hclose hcomma hvalue hword colon hcolon value later haccept ih =>
      refine gives_loop_turn h (gives_argument h ?_)
        (h.cursor.first_lt (u := [t, colon, value]) (List.cons_ne_nil t _)) fun s' hs' => ih hs'
      rw [argumentAt, if_neg hclose, if_neg hcomma, if_neg hvalue, if_pos hword]
      exact gives_takeText h fun s' hs' _ => (gives_eat hs' (if_pos hcolon)).bind_ok
        fun s'' hs'' => (gives_take _ hs'' (if_pos haccept)).bind_ok fun s₁ hs₁ => gives_pure hs₁ _
  | case8 keyed variants t hclose hcomma hvalue hword colon hcolon value later haccept =>
      refine gives_loop_error (gives_argument h ?_)
      rw [argumentAt, if_neg hclose, if_neg hcomma, if_neg hvalue, if_pos hword]
      exact gives_takeText h fun s' hs' _ => (gives_eat hs' (if_pos hcolon)).bind_ok
        fun s'' hs'' => .bind_error (gives_take_none _ hs'' (if_neg haccept))
  | case9 keyed variants t hclose hcomma hvalue hword colon afterColon hcolon ih =>
      refine gives_loop_turn h (gives_argument h ?_) h.cursor.first_lt_cons fun s' hs' => ih hs'
      rw [argumentAt, if_neg hclose, if_neg hcomma, if_neg hvalue, if_pos hword]
      exact gives_takeText h fun s' hs' _ =>
        (gives_eat hs' (if_neg hcolon)).bind_ok fun s'' hs'' => gives_pure hs'' _
  | case10 keyed variants t rest hclose hcomma hvalue hword =>
      refine gives_loop_error (gives_argument h ?_)
      rw [argumentAt, if_neg hclose, if_neg hcomma, if_neg hvalue, if_neg hword]
      exact gives_fail h .argumentOrClose

theorem follows_optionalArguments :
    optionalArguments.Follows stop (Parser.optionalArguments stop) := by
  refine follows_eat .parenOpen (Bool.rec ?_ ?_) ?_ ?_
  · intro b items rest heat
    cases b <;> simp only [Parser.optionalArguments, heat] <;> rfl
  · intro b
    cases b with
    | false => exact follows_pure []
    | true => exact follows_arguments [] []

theorem follows_field : field.Follows stop (Parser.readField stop) := by
  apply Follows.bind (follows_take _ _)
  intro name
  apply Follows.bind (follows_takeMark _)
  intro _
  apply Follows.bind (follows_take _ _)
  intro typeName
  apply Follows.bind follows_optionalArguments
  intro found
  apply follows_eat .question
  · intro optional items rest heat
    simp only [heat]
    rfl
  · intro optional
    exact follows_pure _

theorem gives_schema (h : s.At ⟨t :: items, stop⟩) :
    schema.Gives s (reached stop (Parser.schema stop t.position.line items)) := by
  refine Follows.behind ?_ h
  apply Follows.bind (follows_take _ _)
  intro name
  apply Follows.bind (follows_takeMark _)
  intro _
  apply Follows.bind
    (follows_untilBrace (Parser.field stop) (Parser.recognizes_readField stop) follows_field)
  intro fields
  exact follows_pure _

/-! ## Routes -/

theorem follows_step : step.Follows stop (Parser.readStep stop) := by
  apply Follows.bind (follows_take _ _)
  intro word
  dsimp only
  split_ifs with hauth hvalidate
  · exact follows_pure _
  · refine follows_eat .parenOpen (Bool.rec ?_ ?_) ?_ ?_
    · intro b items rest heat
      cases b <;> simp only [heat] <;> rfl
    · intro b
      cases b with
      | false => exact follows_pure _
      | true =>
          apply Follows.bind (follows_take _ _)
          intro schema
          dsimp only
          apply Follows.bind (follows_takeMark _)
          intro _
          exact follows_pure _
  · exact follows_pure _

/-- A comma is passed if a step may follow it, and what is done then is the rest
of the turn. -/
theorem gives_stepTurn {bracketed : Bool} {read : List Step}
    {outcome : Except SyntaxError ((List Step ⊕ List Step) × Tokens)} (h : s.At ⟨items, stop⟩)
    (heat : Parser.eat .comma items = (true, rest))
    (hstarts : ¬(!bracketed && !Parser.startsStep rest) = true)
    (hbehind : ∀ s', s'.At ⟨rest, stop⟩ → (stepBehind bracketed read).Gives s' outcome) :
    (stepTurn bracketed read).Gives s outcome := by
  apply gives_cursor
  rw [h.cursor.isAt, heat, if_pos rfl]
  obtain ⟨t, rfl, -⟩ := Parser.eat_eq_true_iff.mp heat
  rw [h.cursor.stepAhead, if_neg hstarts]
  exact (gives_pass h).bind_ok hbehind

theorem gives_laterStep {bracketed : Bool} {read : List Step} {first : Step} {later : List Token}
    {outcome : Except SyntaxError (List Step × Tokens)} (h : s.At ⟨items, stop⟩)
    (heat : Parser.eat .comma items = (true, rest))
    (hstarts : ¬(!bracketed && !Parser.startsStep rest) = true)
    (hclose : ¬(bracketed && (Parser.eat .bracketClose rest).1) = true)
    (hstep : Parser.readStep stop rest = .ok (first, later))
    (hnext : ∀ s', s'.At ⟨later, stop⟩ →
      (loop .pipeline (stepTurn bracketed) (read ++ [first])).Gives s' outcome) :
    (loop .pipeline (stepTurn bracketed) read).Gives s outcome := by
  refine gives_loop_turn h (gives_stepTurn h heat hstarts fun s' hs' => gives_cursor ?_) ?_ hnext
  · have hgives := follows_step hs'
    rw [hstep] at hgives
    rw [hs'.cursor.isAt, if_neg hclose]
    exact hgives.bind_ok fun s'' hs'' => gives_pure hs'' _
  · obtain ⟨comma, rfl, -⟩ := Parser.eat_eq_true_iff.mp heat
    obtain ⟨used, rfl, -⟩ := (Parser.recognizes_readStep stop).sound hstep
    exact h.cursor.first_lt (u := comma :: used) (List.cons_ne_nil comma used)

/-- The pipeline gives what the parser gives by recursion. -/
theorem follows_steps (bracketed : Bool) (read : List Step) :
    (loop .pipeline (stepTurn bracketed) read).Follows stop
      fun items => appended read (Parser.moreSteps stop bracketed items) := by
  intro s items h
  beta_reduce
  -- The parser conses a step before the later ones; the loop appends it to those read so far.
  fun_induction Parser.moreSteps stop bracketed items generalizing s read with
  | case1 items rest heat =>
      obtain ⟨rfl, -⟩ := Parser.eat_eq_false_iff.mp heat
      refine gives_loop_last (gives_cursor ?_)
      rw [h.cursor.isAt, heat, List.append_nil]
      exact gives_pure h _
  | case2 items rest heat hstarts =>
      obtain ⟨t, rfl, -⟩ := Parser.eat_eq_true_iff.mp heat
      refine gives_loop_last (gives_cursor ?_)
      rw [h.cursor.isAt, heat, if_pos rfl, h.cursor.stepAhead, if_pos hstarts, List.append_nil]
      exact gives_pure h _
  | case3 items rest heat hstarts hclose =>
      refine gives_loop_last (gives_stepTurn h heat hstarts fun s' hs' => gives_cursor ?_)
      rw [hs'.cursor.isAt, if_pos hclose, List.append_nil]
      exact gives_pure hs' _
  | case4 items rest heat hstarts hclose e hstep =>
      refine gives_loop_error (gives_stepTurn h heat hstarts fun s' hs' => gives_cursor ?_)
      have hgives := follows_step hs'
      rw [hstep] at hgives
      rw [hs'.cursor.isAt, if_neg hclose]
      exact hgives.bind_error
  | case5 items rest heat hstarts hclose first later hstep _ e hmore ih =>
      refine gives_laterStep h heat hstarts hclose hstep fun s' hs' => ?_
      simpa [hmore, appended, Except.map] using ih (read ++ [first]) hs'
  | case6 items rest heat hstarts hclose first later hstep _ more last hmore ih =>
      refine gives_laterStep h heat hstarts hclose hstep fun s' hs' => ?_
      simpa [hmore, appended, Except.map] using ih (read ++ [first]) hs'

/-- A route is read by a machine for each of its parts, with one loop among
them. -/
theorem follows_route : route.Follows stop (Parser.readRoute stop) := by
  apply Follows.bind (follows_take _ _)
  rintro ⟨verb, line⟩
  apply Follows.bind (follows_take _ _)
  intro path
  apply Follows.bind (follows_takeMark _)
  intro _
  apply follows_eat .bracketOpen
  · intro bracketed items rest heat
    simp only [heat]
    rfl
  · intro bracketed
    apply Follows.bind follows_step
    intro first
    dsimp only
    apply Follows.bind_appended (follows_steps bracketed [first])
    intro more
    dsimp only
    cases bracketed with
    | true =>
        apply Follows.bind (follows_takeMark _)
        intro _
        exact follows_pure _
    | false => exact follows_pure _

theorem gives_skipLabel (h : s.At ⟨items, stop⟩) :
    skipLabel.Gives s (.ok ((), ⟨Parser.skipLabel items, stop⟩)) := by
  apply gives_cursor
  rw [h.cursor.token?]
  cases items with
  | nil => exact gives_pure h ()
  | cons t rest =>
      rw [List.head?_cons, Option.bind_eq_bind, Option.bind_some, Parser.skipLabel]
      split_ifs
      · exact gives_pass h
      · exact gives_pure h ()

theorem gives_routes (h : s.At ⟨t :: items, stop⟩) :
    routes.Gives s (reached stop (Parser.routes stop items)) := by
  apply (gives_pass h).bind_ok
  intro s' hs'
  apply (gives_skipLabel hs').bind_ok
  intro s'' hs''
  refine Follows.bind (follows_takeMark .braceOpen) (fun _ => ?_) hs''
  exact follows_untilBrace (Parser.route stop) (Parser.recognizes_readRoute stop) follows_route

/-! ## Migrations and imports -/

/-- A word that names no operation is passed, and the cursor goes back to it. -/
theorem gives_unknown (h : s.At ⟨t :: rest, stop⟩) (hword : t.kind.isWord = true)
    (hs' : s'.At ⟨rest, stop⟩) (hcursor : s'.cursor = s.cursor.advance) :
    (unknownOperation s.cursor).Gives s'
      (.error (.parse (Parser.unexpected stop .operation (t :: rest)))) := by
  have hadvance := h.cursor.advance.1
  have hback : s'.cursor.back = s.cursor := by rw [hcursor, hadvance]; rfl
  have hstepped : (Event.stepped s.cursor s'.cursor s'.cursor.back).Good :=
    ⟨by rw [hcursor, hadvance]; exact Nat.succ_pos _, hback, t, h.cursor.token?, hword⟩
  apply gives_cursor
  have hat : s'.cursor.back.At ⟨t :: rest, stop⟩ := hback ▸ h.cursor
  apply (gives_moveTo hs' hat).bind_ok
  intro s₁ hs₁
  apply (gives_note hs₁ hstepped).bind_ok
  intro s₂ hs₂
  exact gives_fail hs₂ .operation

/-- An operation is passed word by word. -/
theorem follows_operation : operation.Follows stop (Parser.readOperation stop) := by
  intro s items h
  apply gives_cursor
  rw [h.cursor.token?]
  cases items with
  | nil => exact gives_fail h .operation
  | cons t rest =>
      rw [List.head?_cons, Option.any_some, Parser.readOperation, Parser.expect, Parser.word]
      by_cases hword : t.kind.isWord = true
      · rw [if_pos hword, if_pos hword, Option.bind_eq_bind, Option.bind_some]
        apply gives_takeText h
        intro s' hs' hcursor
        cases Parser.OperationWord.ofWord? t.text with
        | none => exact gives_unknown h hword hs' hcursor
        | some kind =>
            rw [Except.ok_bind]
            cases kind with
            | addColumn =>
                refine Follows.bind (follows_take _ _) (fun table => ?_) hs'
                apply Follows.bind (follows_take _ _)
                intro column
                apply Follows.bind (follows_take _ _)
                intro typeName
                exact follows_pure _
            | dropColumn =>
                refine Follows.bind (follows_take _ _) (fun table => ?_) hs'
                apply Follows.bind (follows_take _ _)
                intro column
                exact follows_pure _
            | createTable | dropTable =>
                refine Follows.bind (follows_take _ _) (fun table => ?_) hs'
                exact follows_pure _
      · rw [if_neg hword, if_neg hword]
        exact gives_fail h .operation

theorem gives_migration (h : s.At ⟨t :: items, stop⟩) :
    migration.Gives s (reached stop (Parser.migration stop t.position.line items)) := by
  refine Follows.behind ?_ h
  apply Follows.bind (follows_take _ _)
  intro version
  apply Follows.bind (follows_takeMark _)
  intro _
  apply Follows.bind (follows_untilBrace (Parser.operation stop)
    (Parser.recognizes_readOperation stop) follows_operation)
  intro operations
  exact follows_pure _

theorem gives_importing (h : s.At ⟨t :: items, stop⟩) :
    importing.Gives s (reached stop (Parser.importing stop t.position.line items)) :=
  Follows.behind (Follows.bind (follows_take _ _) fun _ => follows_pure _) h

/-! ## Actions -/

theorem gives_paramTurn {read : List String}
    {outcome : Except SyntaxError ((List String ⊕ List String) × Tokens)}
    (h : s.At ⟨t :: rest, stop⟩) (hclose : ¬Parser.isMark .parenClose t = true)
    (hword : t.kind.isWord = true)
    (hbehind : ∀ s', s'.At ⟨rest, stop⟩ → (paramBehind read t.text).Gives s' outcome) :
    (paramTurn read).Gives s outcome :=
  (gives_eat h (if_neg hclose)).bind_ok fun _ hs' =>
    (gives_take _ hs' (if_pos hword)).bind_ok hbehind

/-- The loop over parameters gives what the parser gives by recursion, a word
and the mark behind it at a time. -/
theorem follows_params (read : List String) :
    (loop .params paramTurn read).Follows stop
      fun items => appended read (Parser.params stop items) := by
  intro s items h
  -- One parameter and its comma, as both cases that go on read them.
  have hnext {s : Trace} {t separator : Token} {later : List Token} {read : List String}
      {outcome : Except SyntaxError (List String × Tokens)}
      (h : s.At ⟨t :: separator :: later, stop⟩) (hclose : ¬Parser.isMark .parenClose t = true)
      (hword : t.kind.isWord = true) (hcomma : Parser.isMark .comma separator = true)
      (hnext : ∀ s', s'.At ⟨later, stop⟩ →
        (loop .params paramTurn (read ++ [t.text])).Gives s' outcome) :
      (loop .params paramTurn read).Gives s outcome :=
    gives_loop_turn h (gives_paramTurn h hclose hword fun s' hs' =>
        (gives_eat hs' (if_pos hcomma)).bind_ok fun s'' hs'' => gives_pure hs'' _)
      (h.cursor.first_lt (u := [t, separator]) (List.cons_ne_nil t _)) hnext
  beta_reduce
  fun_induction Parser.params stop items generalizing s read with
  | case1 =>
      exact gives_loop_error ((gives_eat h rfl).bind_ok
        fun s' hs' => .bind_error (gives_take_none _ hs' rfl))
  | case2 t rest hclose =>
      refine gives_loop_last ((gives_eat h (if_pos hclose)).bind_ok fun s' hs' => ?_)
      rw [List.append_nil]
      exact gives_pure hs' _
  | case3 t hclose hword =>
      exact gives_loop_error (gives_paramTurn h hclose hword fun s' hs' =>
        (gives_eat hs' rfl).bind_ok fun s'' hs'' => .bind_error (follows_takeMark _ hs''))
  | case4 t hclose hword separator later hcomma e hmore ih =>
      refine hnext h hclose hword hcomma fun s' hs' => ?_
      simpa [hmore, appended, Except.map] using ih (read ++ [t.text]) hs'
  | case5 t hclose hword separator later hcomma more last hmore ih =>
      refine hnext h hclose hword hcomma fun s' hs' => ?_
      simpa [hmore, appended, Except.map] using ih (read ++ [t.text]) hs'
  | case6 t hclose hword separator later hcomma hlast =>
      exact gives_loop_last (gives_paramTurn h hclose hword fun s' hs' =>
        (gives_eat hs' (if_neg hcomma)).bind_ok fun s'' hs'' =>
          ((gives_eat hs'' (if_pos hlast)).bind_ok fun s₁ hs₁ => gives_pure hs₁ ()).bind_ok
            fun s₁ hs₁ => gives_pure hs₁ _)
  | case7 t hclose hword separator later hcomma hlast =>
      exact gives_loop_error (gives_paramTurn h hclose hword fun s' hs' =>
        (gives_eat hs' (if_neg hcomma)).bind_ok fun s'' hs'' =>
          ((gives_eat hs'' (if_neg hlast)).bind_ok fun s₁ hs₁ => gives_fail hs₁ _).bind_error)
  | case8 t rest hclose hword =>
      exact gives_loop_error ((gives_eat h (if_neg hclose)).bind_ok
        fun s' hs' => .bind_error (gives_take_none _ hs' (if_neg hword)))

theorem follows_signature : signature.Follows stop (Parser.signature stop) := by
  apply Follows.bind (follows_take _ _)
  intro name
  apply Follows.bind (follows_takeMark _)
  intro _
  apply Follows.bind_appended (follows_params [])
  intro params
  exact follows_pure _

/-- An action is its signature and its body. -/
theorem gives_action (source : List UInt8) (h : s.At ⟨t :: items, stop⟩) :
    (action source).Gives s (Parser.action source t.position.line ⟨items, stop⟩) := by
  apply gives_takeLine h
  intro s' hs'
  have hsignature := follows_signature hs'
  rw [Parser.action]
  rcases hread : Parser.signature stop items with e | ⟨⟨name, params⟩, rest⟩
  · rw [hread] at hsignature
    exact hsignature.bind_error
  · rw [hread] at hsignature
    apply hsignature.bind_ok
    intro s'' hs''
    apply gives_cursor
    rw [hs''.cursor.token?]
    cases rest with
    | nil => exact gives_fail hs'' .bodyOpen
    | cons brace later =>
        by_cases hbrace : Parser.isMark .braceOpen brace = true
        · simp only [List.head?_cons, Option.filter_some, if_pos hbrace, Except.mapError,
            Except.ok_bind, Parser.bodyBrace]
          -- The body is read from the text, and the cursor moves to the first token behind it.
          rcases Block.locate source brace.position.line with e | n
          · exact .error rfl hs''.events
          · rcases hblock : Block.extract source brace.position.offset with e | block
            · exact .error rfl hs''.events
            · have hmove := gives_moveTo hs'' (hs''.cursor.skipBody hblock)
              exact hmove.bind_ok fun s₁ hs₁ => gives_pure hs₁ _
        · simp only [List.head?_cons, Option.filter_some, if_neg hbrace, Except.mapError,
            Except.ok_bind, Parser.bodyBrace]
          exact gives_fail hs'' .bodyOpen

/-! ## Whole runs -/

/-- A block gives what the parser gives, for each of the keywords. -/
theorem gives_block {source : List UInt8} (h : s.At ⟨t :: items, stop⟩) :
    (block source t).Gives s (Parser.block source t ⟨items, stop⟩) := by
  have hlift {γ : Type} {m : Machine γ} {outcome : Parser.Outcome γ} (toTree : γ → Tree)
      (hm : m.Gives s (reached stop outcome)) : (m >>= fun a => pure (toTree a)).Gives s
        (Parser.lift ⟨items, stop⟩ toTree outcome) := by
    rcases outcome with e | found <;> exact hm.map toTree
  obtain ⟨kind, text, position⟩ := t
  cases kind with
  | keyword k =>
      cases k with
      | data => exact hlift _ (gives_schema h)
      | action => exact (gives_action source h).map Parser.ofAction
      | route => exact hlift _ (gives_routes h)
      | migration => exact hlift _ (gives_migration h)
      | importing => exact hlift _ (gives_importing h)
  | unterminated => exact gives_fail h .closingQuote
  | _ => exact gives_passing h _

/-- Blocks are read up to the end, and each ends further on than it begins. -/
theorem gives_blocks {source : List UInt8} {limit m : Nat} (hlimit : source.length - m < limit)
    (h : s.At (Tokens.behind source m)) (read : Tree) :
    (loop .blocks (blockTurn source) read).Gives s
      ((Parser.blocks source limit (Tokens.behind source m)).map fun tree =>
        (read ++ tree, ⟨[], Position.start.advance source⟩)) := by
  -- The induction is on the limit, which the bytes still to read stay under.
  induction limit generalizing s m read with
  | zero => omega
  | succ limit ih =>
      have htoken := h.cursor.token?
      have hstop := Tokens.stop_behind source m
      have hbehind : Tokens.behind source m =
          ⟨(Tokens.behind source m).items, Position.start.advance source⟩ := by rw [← hstop]
      rw [Parser.blocks]
      split
      next hitems =>
        rw [hitems] at hbehind htoken
        refine gives_loop_last (gives_cursor ?_)
        rw [htoken, Tree.append_empty, ← hbehind]
        exact gives_pure h _
      next t items hitems =>
        rw [hitems] at hbehind htoken
        have hgives : (blockTurn source read).Gives s
            ((Parser.block source t ⟨items, Position.start.advance source⟩).map
              fun found => (Sum.inl (read ++ found.1), found.2)) := by
          apply gives_cursor
          rw [htoken]
          exact (gives_block (hbehind ▸ h)).map _
        rw [hstop]
        rcases hblock : Parser.block source t ⟨items, _⟩ with e | ⟨first, later⟩
        · rw [hblock] at hgives
          exact gives_loop_error hgives
        · rw [hblock] at hgives
          have hsplit : (Tokens.behind source m).items = [] ++ t :: items := hitems
          obtain ⟨hle, -, -, hfirst⟩ := Tokens.behind_of_mem hsplit
          rw [← Tokens.stop_behind source t.position.offset] at hblock
          obtain ⟨n, hlt, hn, rfl⟩ := Parser.block_behind hfirst hblock
          -- A block takes its keyword at least, so the cursor moves past where it stood.
          have hprogress : (Tokens.behind source m).first.offset <
              (Tokens.behind source n).first.offset := by
            obtain ⟨last, hlast⟩ := (Tokens.behind source n).entries_eq_cons
            rw [hbehind]
            exact Nat.lt_of_lt_of_le hlt
              (Tokens.le_offset_of_mem hn (hlast ▸ List.mem_cons_self))
          apply gives_loop_turn h hgives hprogress
          intro s' hs'
          simp only
          have hmore := ih (by omega) hs' (read ++ first)
          rcases hrest : Parser.blocks source limit (Tokens.behind source n) with e | more
          · rw [hrest] at hmore
            exact hmore
          · rw [hrest, Except.map, Tree.append_assoc] at hmore
            exact hmore

/-- Whatever the source, parsing with a cursor ends, with the tree or the error
of the source; cursors stay sane, the turns of all loops lead further into the
source, and a step back leads to the word of an operation. -/
theorem parse_ends (source : List UInt8) : ∃ trace,
    parse source = .some (Tree.ofBytes source, trace) ∧ ∀ e ∈ trace.events, e.Good := by
  have hstart : (Cursor.start source).At (Tokens.behind source 0) :=
    ⟨⟨⟨_, rfl⟩, by simp [Cursor.start, Tokens.entries], Tokens.increasing_behind source 0⟩, rfl⟩
  have hat : Trace.At ⟨.start source, [.moved (.start source)]⟩ (Tokens.behind source 0) :=
    ⟨hstart, List.forall_mem_singleton.mpr hstart.sane⟩
  have hgives : (loop .blocks (blockTurn source) {}).Gives _ ((Tree.ofBytes source).map _) :=
    gives_blocks (show source.length - 0 < source.length + 1 by omega) hat {}
  rcases hparse : Tree.ofBytes source with e | tree
  · rw [hparse] at hgives
    cases hgives with
    | error hexec hevents => exact ⟨_, hexec, hevents⟩
  · rw [hparse, Except.map, Tree.empty_append] at hgives
    cases hgives with
    | ok hexec hat => exact ⟨_, hexec, hat.events⟩

end Machine

end BlockLang
