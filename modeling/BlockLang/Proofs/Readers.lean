import BlockLang.Proofs.Scanning
import BlockLang.Tree.Parser.Rule
import Mathlib.Data.List.TakeWhile

/-! # Readers look only at what they use

A reader of tokens uses up some tokens and looks at no more than two tokens behind them, at the
second one only behind a comma. So it reads the same from any tokens that begin with those it used,
wherever the source ends. Here this is stated for readers at large and proved for single tokens and
for one reader behind another.
-/

namespace BlockLang

def Text.IsWord (s : String) : Prop := ∀ b ∈ Text.bytes s, Scan.isWordPart b = true

def Token.Sound (t : Token) : Prop := t.kind.isWord = true → Text.IsWord t.text

namespace Parser

variable {α β : Type} {stop : Position} {ts rest : List Token}

/-! ## Single tokens -/

def NoMark (m : Mark) (ts : List Token) : Prop := ∀ t ∈ ts.head?, t.kind ≠ .mark m

theorem noMark_congr {m : Mark} {ts' : List Token} (h : ts.head? = ts'.head?) :
    NoMark m ts ↔ NoMark m ts' := by
  rw [NoMark, NoMark, h]

theorem expect_eq_ok_iff {expected : Expectation} {accept : Token → Option α} {a : α} :
    expect stop expected accept ts = .ok (a, rest) ↔ ∃ t, ts = t :: rest ∧ accept t = some a := by
  cases ts with
  | nil => simp [expect]
  | cons t later =>
      cases haccept : accept t with
      | none => simp [expect, haccept]
      | some a' => simp [expect, haccept, and_comm, eq_comm]

theorem isMark_iff {m : Mark} {t : Token} : isMark m t = true ↔ t.kind = .mark m :=
  decide_eq_true_iff

/-- A mark is eaten exactly if it is the first token, and then it is gone. -/
theorem eat_eq_true_iff {m : Mark} :
    eat m ts = (true, rest) ↔ ∃ t, ts = t :: rest ∧ t.kind = .mark m := by
  cases ts with
  | nil => simp [eat]
  | cons t later =>
      by_cases hmark : t.kind = .mark m
      · simp [eat, isMark_iff, hmark]
      · simp [eat, isMark_iff, hmark]

theorem eat_eq_false_iff {m : Mark} : eat m ts = (false, rest) ↔ ts = rest ∧ NoMark m ts := by
  cases ts with
  | nil => simp [eat, NoMark]
  | cons t later =>
      by_cases hmark : t.kind = .mark m
      · simp [eat, isMark_iff, NoMark, hmark]
      · simp [eat, isMark_iff, NoMark, hmark]

/-! ## What is ahead -/

/-- Whether two lists of tokens look the same to a reader that ended before
them: in the first token, and in the second if the first is a comma. -/
structure SameFront (ts ts' : List Token) : Prop where
  head : ts.head? = ts'.head?
  second : ¬ NoMark .comma ts → ts.tail.head? = ts'.tail.head?

theorem SameFront.append {ts' : List Token} (h : SameFront ts ts') (used : List Token) :
    SameFront (used ++ ts) (used ++ ts') where
  head := by rw [List.head?_append, List.head?_append, h.head]
  second := by
    intro hmark
    cases used with
    | nil => exact h.second hmark
    | cons u us =>
        rw [List.cons_append, List.cons_append, List.tail_cons, List.tail_cons, List.head?_append,
          List.head?_append, h.head]

/-- How some tokens are used up: with others behind them that look the same, and
wherever the source ends, they make a reader give `a`. -/
structure Uses (read : Position → List Token → Outcome α) (a : α) (ts used rest : List Token) :
    Prop where
  split : ts = used ++ rest
  again : ∀ stop rest', SameFront rest rest' → read stop (used ++ rest') = .ok (a, rest')

/-- What a reader sees ahead of it is seen as well when the tokens behind what
it uses are replaced. -/
theorem Uses.ahead {read : Position → List Token → Outcome α} {a : α} {used rest' : List Token}
    (h : Uses read a ts used rest) (hfront : SameFront rest rest') :
    SameFront ts (used ++ rest') := by
  rw [h.split]
  exact hfront.append used

/-- Whether what a reader gives depends only on the tokens that it uses up and
on what is ahead. -/
def Transfers (read : Position → List Token → Outcome α) : Prop :=
  ∀ ⦃stop ts a rest⦄, read stop ts = .ok (a, rest) → ∃ used, Uses read a ts used rest

theorem transfers_pure (a : α) : Transfers fun _ ts => .ok (a, ts) := by
  intro stop ts a' rest h
  obtain ⟨rfl, rfl⟩ := Prod.mk.inj (Except.ok.inj h)
  exact ⟨[], rfl, fun _ _ _ => rfl⟩

/-- What one reader uses up before another is followed by what the other uses
up. -/
theorem Transfers.bind {read : Position → List Token → Outcome α}
    {next : Position → α × List Token → Outcome β} (hread : Transfers read)
    (hnext : ∀ a, Transfers fun stop ts => next stop (a, ts)) :
    Transfers fun stop ts => (read stop ts >>= next stop : Except _ _) := by
  intro stop ts c last h
  obtain ⟨⟨a, rest⟩, ha, hc⟩ := Except.bind_eq_ok_iff.mp h
  obtain ⟨u₁, s₁⟩ := hread ha
  obtain ⟨u₂, s₂⟩ := hnext a hc
  refine ⟨u₁ ++ u₂, ?_, ?_⟩
  · rw [List.append_assoc, ← s₂.split, ← s₁.split]
  · intro stop' rest' hfront
    rw [List.append_assoc]
    exact Except.bind_eq_ok_iff.mpr ⟨_, s₁.again _ _ (s₂.ahead hfront), s₂.again _ _ hfront⟩

theorem transfers_expect (expected : Expectation) (accept : Token → Option α) :
    Transfers fun stop => expect stop expected accept := by
  intro stop ts a rest h
  obtain ⟨t, rfl, ha⟩ := expect_eq_ok_iff.mp h
  exact ⟨[t], rfl, fun _ _ _ => expect_eq_ok_iff.mpr ⟨t, rfl, ha⟩⟩

theorem eat_transfers {m : Mark} {b : Bool} (h : eat m ts = (b, rest)) :
    ∃ used, ts = used ++ rest ∧
      ∀ rest', SameFront rest rest' → eat m (used ++ rest') = (b, rest') := by
  cases b with
  | true =>
      obtain ⟨t, rfl, ht⟩ := eat_eq_true_iff.mp h
      exact ⟨[t], rfl, fun rest' _ => eat_eq_true_iff.mpr ⟨t, rfl, ht⟩⟩
  | false =>
      obtain ⟨rfl, hmark⟩ := eat_eq_false_iff.mp h
      exact ⟨[], rfl, fun rest' hfront =>
        eat_eq_false_iff.mpr ⟨rfl, (noMark_congr hfront.head).mp hmark⟩⟩

/-- A reader that looks for a mark first, and goes on with or without it. -/
theorem transfers_eat (m : Mark) {read : Position → List Token → Outcome α}
    (next : Bool → Position → List Token → Outcome α)
    (hread : ∀ {stop b ts rest}, eat m ts = (b, rest) → read stop ts = next b stop rest)
    (hnext : ∀ b, Transfers (next b)) : Transfers read := by
  intro stop ts a last h
  have heat : eat m ts = ((eat m ts).1, (eat m ts).2) := rfl
  rw [hread heat] at h
  obtain ⟨u₁, hsplit, hagain⟩ := eat_transfers heat
  obtain ⟨u₂, s₂⟩ := hnext _ h
  refine ⟨u₁ ++ u₂, ?_, ?_⟩
  · rw [List.append_assoc, ← s₂.split, ← hsplit]
  · intro stop' rest' hfront
    rw [List.append_assoc, hread (hagain _ (s₂.ahead hfront))]
    exact s₂.again _ _ hfront

/-! ## Lists between braces -/

/-- One step of reading a list between braces, without the proof that the list
gets shorter. -/
theorem untilBrace_eq (item : Rule α) (ts : List Token) :
    item.untilBrace ts =
      match eat .braceClose (skipCommas ts) with
      | (true, rest) => .ok ([], rest)
      | (false, rest) =>
        match item.read rest with
        | .error e => .error e
        | .ok (a, later) =>
          match item.untilBrace later with
          | .error e => .error e
          | .ok (more, last) => .ok (a :: more, last) := by
  rw [Rule.untilBrace]
  split
  next rest heat => simp only [heat]
  next rest heat =>
    simp only [heat]
    split
    next e hitem => simp only [hitem]
    next a later hitem =>
      cases hmore : item.untilBrace later <;> simp only [hitem, hmore]

end Parser
end BlockLang
