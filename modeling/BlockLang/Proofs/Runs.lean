import BlockLang.Proofs.Blocks

/-! # Reading a source block by block

Blocks are read one after another up to the end of the source. The limit on their number is never
reached, so a tree is what such a run gives, and a run can be cut at any state.
-/

namespace BlockLang

namespace Parser

variable {source : List UInt8}

/-- Reading blocks one after another, from some tokens on up to others. -/
inductive Reads (source : List UInt8) : Tokens → Tree → Tokens → Prop
  | done (ts : Tokens) : Reads source ts {} ts
  | step {ts later last : Tokens} {t : Token} {items : List Token} {tree more : Tree}
      (hitems : ts.items = t :: items)
      (hblock : block source t ⟨items, ts.stop⟩ = .ok (tree, later))
      (hmore : Reads source later more last) : Reads source ts (tree ++ more) last

/-- Reading blocks one after another up to one that cannot be read, with the
error that this one gives. -/
def Fails (source : List UInt8) (ts : Tokens) (e : SyntaxError) : Prop :=
  ∃ before mid t items, Reads source ts before mid ∧ mid.items = t :: items ∧
    block source t ⟨items, mid.stop⟩ = .error e

variable {ts last mid : Tokens} {tree : Tree} {e : SyntaxError}

theorem Fails.step {later : Tokens} {t : Token} {items : List Token}
    (hitems : ts.items = t :: items)
    (hblock : block source t ⟨items, ts.stop⟩ = .ok (tree, later)) (h : Fails source later e) :
    Fails source ts e := by
  obtain ⟨before, mid, t', items', hreads, h⟩ := h
  exact ⟨tree ++ before, mid, t', items', .step hitems hblock hreads, h⟩

/-- Blocks are read up to the end or to one that cannot be read, given a limit
that the bytes left cannot reach. -/
theorem blocks_cases {limit m : Nat} (hlimit : source.length - m < limit) :
    (∃ tree last, blocks source limit (Tokens.behind source m) = .ok tree ∧
      Reads source (Tokens.behind source m) tree last ∧ last.items = []) ∨
      ∃ e, blocks source limit (Tokens.behind source m) = .error e ∧
        Fails source (Tokens.behind source m) e := by
  induction limit generalizing m with
  | zero => omega
  | succ limit ih =>
      rw [blocks]
      split
      next hitems => exact .inl ⟨{}, _, rfl, .done _, hitems⟩
      next t items hitems =>
        cases hblock : block source t ⟨items, (Tokens.behind source m).stop⟩ with
        | error e => exact .inr ⟨e, rfl, {}, _, t, items, .done _, hitems, hblock⟩
        | ok found =>
            obtain ⟨first, later⟩ := found
            -- A block ends further on than it begins, so less is enough for the others.
            obtain ⟨n, hlt, hn, rfl⟩ := block_behind hitems hblock
            rcases ih (m := n) (by omega) with
              ⟨tree, last, hrest, hreads, hlast⟩ | ⟨e, hrest, hfails⟩
            · simp only [hrest]
              exact .inl ⟨_, last, rfl, .step hitems hblock hreads, hlast⟩
            · simp only [hrest]
              exact .inr ⟨e, rfl, hfails.step hitems hblock⟩

theorem Reads.of_nil (h : Reads source ts tree last)
    (hts : ts.items = []) : tree = {} ∧ last = ts := by
  cases h with
  | done => exact ⟨rfl, rfl⟩
  | step hitems => rw [hts] at hitems; cases hitems

theorem Fails.items_ne_nil (h : Fails source ts e) : ts.items ≠ [] := by
  intro hts
  obtain ⟨before, mid, t, items, hreads, hmid, -⟩ := h
  obtain ⟨-, rfl⟩ := hreads.of_nil hts
  rw [hts] at hmid
  cases hmid

/-- Reading that starts from the tokens behind an offset ends with tokens behind
an offset, even where they were made anew behind a body. -/
theorem Reads.exists_behind {m : Nat} (h : Reads source (Tokens.behind source m) tree last) :
    ∃ n, last = Tokens.behind source n := by
  generalize hts : Tokens.behind source m = ts at h
  induction h generalizing m with
  | done => exact ⟨m, hts.symm⟩
  | step hitems hblock _ ih =>
      subst hts
      obtain ⟨n, -, -, rfl⟩ := block_behind hitems hblock
      exact ih rfl

/-- What holds of an empty tree, of every block behind an offset, and of two
trees together as soon as it holds of each, holds of all that is read. -/
theorem Reads.forall_blocks {P : Tree → Prop} (hempty : P {})
    (happend : ∀ {t u}, P t → P u → P (t ++ u))
    (hP : ∀ {n t items tree later}, (Tokens.behind source n).items = t :: items →
      block source t ⟨items, (Tokens.behind source n).stop⟩ = .ok (tree, later) → P tree)
    {m : Nat} (h : Reads source (Tokens.behind source m) tree last) : P tree := by
  generalize hts : Tokens.behind source m = ts at h
  induction h generalizing m with
  | done => exact hempty
  | step hitems hblock _ ih =>
      subst hts
      obtain ⟨n, -, -, rfl⟩ := block_behind hitems hblock
      exact happend (hP hitems hblock) (ih rfl)

theorem Reads.append {more : Tree} (h : Reads source ts tree mid)
    (hmore : Reads source mid more last) : Reads source ts (tree ++ more) last := by
  induction h with
  | done => exact hmore
  | step hitems hblock _ ih =>
      rw [Tree.append_assoc]
      exact .step hitems hblock (ih hmore)

/-- What was read is where every longer reading begins: a reading up to the end
goes on from there. -/
theorem Reads.rest {before : Tree} (h : Reads source ts before mid)
    (hall : Reads source ts tree last) (hlast : last.items = []) :
    ∃ more, tree = before ++ more ∧ Reads source mid more last := by
  induction h generalizing tree with
  | done => exact ⟨tree, rfl, hall⟩
  | step hitems hblock _ ih =>
      cases hall with
      | done => rw [hitems] at hlast; cases hlast
      | step hitems' hblock' hall' =>
          obtain ⟨rfl, rfl⟩ := List.cons.inj (hitems.symm.trans hitems')
          rw [hblock] at hblock'
          obtain ⟨rfl, rfl⟩ := Prod.mk.inj (Except.ok.inj hblock')
          obtain ⟨more, rfl, hmore⟩ := ih hall'
          exact ⟨more, (Tree.append_assoc _ _ _).symm, hmore⟩

/-- What was read is no reason to fail: the block that cannot be read is among
those behind. -/
theorem Fails.rest {before : Tree} (h : Fails source ts e)
    (hreads : Reads source ts before mid) : Fails source mid e := by
  induction hreads with
  | done => exact h
  | step hitems hblock _ ih =>
      obtain ⟨tree, stuck, t', items', hall, hstuck, herror⟩ := h
      cases hall with
      | done =>
          obtain ⟨rfl, rfl⟩ := List.cons.inj (hitems.symm.trans hstuck)
          rw [hblock] at herror
          cases herror
      | step hitems' hblock' hall' =>
          obtain ⟨rfl, rfl⟩ := List.cons.inj (hitems.symm.trans hitems')
          rw [hblock] at hblock'
          obtain ⟨rfl, rfl⟩ := Prod.mk.inj (Except.ok.inj hblock')
          exact ih ⟨_, stuck, t', items', hall', hstuck, herror⟩

/-- There is only one way to fail, since reading never has a choice. -/
theorem Fails.unique {e' : SyntaxError} (h : Fails source ts e)
    (h' : Fails source ts e') : e = e' := by
  obtain ⟨before, mid, t, items, hreads, hmid, herror⟩ := h
  obtain ⟨_, _, t', items', hreads', hmid', herror'⟩ := h'.rest hreads
  cases hreads' with
  | done =>
      obtain ⟨rfl, rfl⟩ := List.cons.inj (hmid.symm.trans hmid')
      exact Except.error.inj (herror.symm.trans herror')
  | step hitems hblock =>
      obtain ⟨rfl, rfl⟩ := List.cons.inj (hmid.symm.trans hitems)
      rw [herror] at hblock
      cases hblock

theorem ofBytes_cases (source : List UInt8) :
    (∃ tree last, Tree.ofBytes source = .ok tree ∧
      Reads source (Tokens.ofSource source) tree last ∧ last.items = []) ∨
      ∃ e, Tree.ofBytes source = .error e ∧ Fails source (Tokens.ofSource source) e :=
  blocks_cases (m := 0) (Nat.lt_succ_self source.length)

/-- A tree is what reading a source up to its end gives. -/
theorem ofBytes_eq_ok_iff : Tree.ofBytes source = .ok tree ↔
      ∃ last, Reads source (Tokens.ofSource source) tree last ∧ last.items = [] := by
  rcases ofBytes_cases source with ⟨found, last, hok, hreads, hlast⟩ | ⟨e, herror, hfails⟩
  · rw [hok]
    constructor
    · intro h
      obtain rfl := Except.ok.inj h
      exact ⟨last, hreads, hlast⟩
    · rintro ⟨last', hreads', hlast'⟩
      obtain ⟨more, rfl, hmore⟩ := hreads.rest hreads' hlast'
      rw [(hmore.of_nil hlast).1, Tree.append_empty]
  · simp only [herror, reduceCtorEq, false_iff]
    rintro ⟨last, hreads, hlast⟩
    exact (hfails.rest hreads).items_ne_nil hlast

/-- A source has no tree exactly if reading it fails at some block, and the
error is the one of this block. -/
theorem ofBytes_eq_error_iff :
    Tree.ofBytes source = .error e ↔ Fails source (Tokens.ofSource source) e := by
  rcases ofBytes_cases source with ⟨tree, last, hok, hreads, hlast⟩ | ⟨e', herror, hfails⟩
  · simp only [hok, reduceCtorEq, false_iff]
    exact fun hfails => (hfails.rest hreads).items_ne_nil hlast
  · rw [herror, Except.error.injEq]
    constructor
    · rintro rfl
      exact hfails
    · exact hfails.unique

/-- Every action of a tree is read from some state on, behind blocks that
declare the actions before it. -/
theorem Reads.exists_action {as₁ as₂ : List Action} {a : Action} (h : Reads source ts tree last)
    (hactions : tree.actions = as₁ ++ a :: as₂) :
    ∃ before mid t items later, before.actions = as₁ ∧ Reads source ts before mid ∧
      mid.items = t :: items ∧ t.kind = .keyword .action ∧
        block source t ⟨items, mid.stop⟩ = .ok (ofAction a, later) := by
  induction h generalizing as₁ with
  | done ts => simp at hactions
  | step hitems hblock hmore ih =>
      rename_i ts later last t items tree more
      rw [Tree.actions_append] at hactions
      by_cases hkind : t.kind = .keyword .action
      · obtain ⟨a', used, brace, rest, c, rfl, -⟩ := action_uses hkind hblock
        cases as₁ with
        | nil =>
            obtain ⟨rfl, -⟩ := List.cons.inj hactions
            exact ⟨{}, ts, t, items, later, rfl, .done ts, hitems, hkind, hblock⟩
        | cons first as₁ =>
            obtain ⟨rfl, hrest⟩ := List.cons.inj hactions
            obtain ⟨before, mid, t', items', later', rfl, hreads, h'⟩ := ih hrest
            exact ⟨_, mid, t', items', later', rfl, .step hitems hblock hreads, h'⟩
      · obtain ⟨hnone, -⟩ := block_uses hkind hblock
        rw [hnone, List.nil_append] at hactions
        obtain ⟨before, mid, t', items', later', rfl, hreads, h'⟩ := ih hactions
        refine ⟨_, mid, t', items', later', ?_, .step hitems hblock hreads, h'⟩
        rw [Tree.actions_append, hnone, List.nil_append]

end Parser

end BlockLang
