import BlockLang.Pattern
import Mathlib.Data.List.Basic
import Mathlib.Data.List.TakeDrop
import Mathlib.Data.List.TakeWhile
import Mathlib.Tactic.SplitIfs

/-! # Readers of patterns take whole escapes

Whatever is read of a pattern at once ends between whole escapes, so a backslash that was not read
belongs to an escape that is still to come. A class ends in a bracket, and nothing else takes a
bracket, but for the names of groups and for comments in verbose patterns.
-/

namespace BlockLang

namespace CharSet

/-- Joining ranges that touch adds no code: every code in a joined range is in
one of the ranges. -/
theorem covers_of_joinTouching {n : Nat} {range : Nat × Nat} {rest : List (Nat × Nat)}
    (h : ∃ r ∈ joinTouching range rest, r.1 ≤ n ∧ n ≤ r.2) :
    ∃ r ∈ range :: rest, r.1 ≤ n ∧ n ≤ r.2 := by
  induction rest generalizing range with
  | nil => exact h
  | cons next rest ih =>
    rw [joinTouching] at h
    split_ifs at h with htouch
    · obtain ⟨r, hr, hlow, hhigh⟩ := ih h
      rcases List.mem_cons.mp hr with rfl | hr
      · simp only at hlow hhigh
        by_cases hn : n ≤ range.2
        · exact ⟨range, List.mem_cons_self, hlow, hn⟩
        · exact ⟨next, List.mem_cons_of_mem _ List.mem_cons_self, by omega, by omega⟩
      · exact ⟨r, List.mem_cons_of_mem _ (List.mem_cons_of_mem _ hr), hlow, hhigh⟩
    · obtain ⟨r, hr, hcovers⟩ := h
      rcases List.mem_cons.mp hr with rfl | hr
      · exact ⟨r, List.mem_cons_self, hcovers⟩
      · obtain ⟨r, hr, hcovers⟩ := ih ⟨r, hr, hcovers⟩
        exact ⟨r, List.mem_cons_of_mem _ hr, hcovers⟩

/-- A set holds a code exactly if one of its ranges does. -/
theorem containsCode_iff {s : CharSet} {n : Nat} :
    s.containsCode n = true ↔ ∃ r ∈ s.ranges, r.1 ≤ n ∧ n ≤ r.2 := by
  simp [containsCode]

/-- A union holds nothing but what one of its sides holds. -/
theorem contains_of_contains_union {s t : CharSet} {c : Char} (h : (s.union t).contains c = true) :
    s.contains c = true ∨ t.contains c = true := by
  have hcovered : ∃ r ∈ s.ranges ++ t.ranges, r.1 ≤ c.toNat ∧ c.toNat ≤ r.2 := by
    rw [contains, containsCode_iff, union, ofRanges] at h
    have hmem : ∀ r, r ∈ (s.ranges ++ t.ranges).mergeSort (fun r s => r.1 ≤ s.1) ↔
        r ∈ s.ranges ++ t.ranges := fun r => List.mem_mergeSort
    split at h
    next => simp [empty] at h
    next range rest hsort =>
      obtain ⟨r, hr, hcovers⟩ := covers_of_joinTouching h
      rw [hsort] at hmem
      exact ⟨r, (hmem r).mp hr, hcovers⟩
  obtain ⟨r, hr, hcovers⟩ := hcovered
  exact (List.mem_append.mp hr).imp (fun hr => containsCode_iff.mpr ⟨r, hr, hcovers⟩)
    fun hr => containsCode_iff.mpr ⟨r, hr, hcovers⟩

end CharSet

namespace Pattern

namespace Reader

/-! ## Taking whole escapes -/

def IsOrdinary (c : Char) : Prop := c ≠ '\\' ∧ c ≠ '[' ∧ c ≠ ']'

instance (c : Char) : Decidable (IsOrdinary c) :=
  inferInstanceAs (Decidable (c ≠ '\\' ∧ c ≠ '[' ∧ c ≠ ']'))

/-- A test that a backslash and brackets fail is passed by ordinary characters
only. -/
theorem isOrdinary_of {p : Char → Bool} {c : Char} (hc : p c = true)
    (h : (p '\\' || p '[' || p ']') = false) : IsOrdinary c := by
  simp only [Bool.or_eq_false_iff] at h
  refine ⟨?_, ?_, ?_⟩ <;> rintro rfl <;> simp_all

/-- Whether some characters are left of others when whole escapes have been
taken from the front. Bare brackets are taken in a verbose pattern only. -/
inductive Takes (verbose : Bool) : List Char → List Char → Prop
  | nothing (cs : List Char) : Takes verbose cs cs
  | char {c : Char} {rest later : List Char} (hescape : c ≠ '\\')
      (hbracket : verbose = false → IsOrdinary c) (h : Takes verbose rest later) :
      Takes verbose (c :: rest) later
  | escape {c : Char} {rest later : List Char} (h : Takes verbose rest later) :
      Takes verbose ('\\' :: c :: rest) later
  /-- A backslash ends a comment that ends the pattern. -/
  | lone : Takes verbose ['\\'] []

namespace Takes

variable {verbose : Bool} {cs later last : List Char} {c : Char}

/-- Taking from the front twice is taking from the front, so readers can be put
together. -/
theorem trans (h : Takes verbose cs later) (hlater : Takes verbose later last) :
    Takes verbose cs last := by
  induction h with
  | nothing => exact hlater
  | char hescape hbracket _ ih => exact .char hescape hbracket (ih hlater)
  | escape _ ih => exact .escape (ih hlater)
  | lone =>
    cases hlater
    exact .lone

theorem suffix (h : Takes verbose cs later) : later <:+ cs := by
  induction h with
  | nothing => exact List.suffix_rfl
  | char _ _ _ ih => exact ih.trans (List.suffix_cons _ _)
  | escape _ ih => exact (ih.trans (List.suffix_cons _ _)).trans (List.suffix_cons _ _)
  | lone => exact List.nil_suffix

theorem any (h : Takes verbose cs later) : Takes true cs later := by
  induction h with
  | nothing => exact .nothing _
  | char hescape _ _ ih => exact .char hescape (fun h => absurd h (by decide)) ih
  | escape _ ih => exact .escape ih
  | lone => exact .lone

theorem ordinary (hc : IsOrdinary c) (h : Takes verbose cs later) : Takes verbose (c :: cs) later :=
  .char hc.1 (fun _ => hc) h

end Takes

/-! ## What the readers take -/

section

variable {verbose : Bool} {cs later : List Char}

/-- Blanks and comments are taken whole. -/
theorem takes_skipVerbose (inComment : Bool) (cs : List Char) :
    Takes true cs (skipVerbose inComment cs) := by
  induction hn : cs.length using Nat.strongRecOn generalizing inComment cs with
  | ind n ih =>
    subst hn
    have hall : true = false → ∀ c, IsOrdinary c := fun h => absurd h (by decide)
    cases cs with
    | nil => exact .nothing _
    | cons c rest =>
      rw [skipVerbose]
      have hrest : ∀ b, Takes true rest (skipVerbose b rest) :=
        fun b => ih _ (Nat.lt_succ_self _) b _ rfl
      split_ifs with hcomment hblank hsharp
      · by_cases hescape : c = '\\'
        · subst hescape
          cases rest with
          | nil => exact .lone
          | cons d rest =>
            -- A newline ends the comment, also behind a backslash.
            have hnext : skipVerbose ('\\' != '\n') (d :: rest) =
                skipVerbose (d != '\n') rest := rfl
            rw [hnext]
            exact .escape (ih _ (by simp only [List.length_cons]; omega) _ _ rfl)
        · exact .char hescape (fun h => hall h c) (hrest _)
      · have hescape : c ≠ '\\' := by
          rintro rfl
          revert hblank
          decide
        exact .char hescape (fun h => hall h c) (hrest _)
      · subst hsharp
        exact .char (by decide) (fun h => hall h _) (hrest _)
      · exact .nothing _

/-- What is skipped between items is taken whole, and nothing is skipped unless
the pattern is verbose. -/
theorem takes_skip (verbose : Bool) (cs : List Char) : Takes verbose cs (skip verbose cs) := by
  cases verbose with
  | false => exact .nothing cs
  | true => exact takes_skipVerbose false cs

variable {c : Char} {e : Escaped}

theorem isOrdinary_of_hexValue? {n : Nat} (h : hexValue? c = some n) : IsOrdinary c :=
  isOrdinary_of (p := fun c => (hexValue? c).isSome) (by simp [h]) (by decide)

theorem takes_hexFixed {value count : Nat}
    (h : hexFixed verbose value count cs = some (c, later)) : Takes verbose cs later := by
  fun_induction hexFixed verbose value count cs with
  | case1 value cs =>
    obtain ⟨_, -, heq⟩ := Option.map_eq_some_iff.mp h
    cases heq
    exact .nothing _
  | case2 => cases h
  | case3 value count d rest ih =>
    simp only [Option.bind_eq_bind, Option.bind_eq_some_iff] at h
    obtain ⟨digit, hdigit, h⟩ := h
    exact .ordinary (isOrdinary_of_hexValue? hdigit) ((takes_skip verbose rest).trans (ih digit h))

theorem takes_hexBraced {value : Option Nat} {limit : Nat}
    (h : hexBraced verbose value limit cs = some (c, later)) : Takes verbose cs later := by
  induction limit generalizing value cs with
  | zero => cases h
  | succ limit ih =>
    have htake := takes_skip verbose cs
    rw [hexBraced] at h
    cases hskip : skip verbose cs with
    | nil =>
      rw [hskip] at h
      cases h
    | cons d rest =>
      rw [hskip] at h htake
      simp only [Option.bind_eq_bind] at h
      split_ifs at h with hbrace
      · simp only [Option.bind_eq_some_iff] at h
        obtain ⟨code, -, c, -, h⟩ := h
        cases h
        refine htake.trans (.ordinary ?_ (takes_skip verbose rest))
        rw [hbrace]
        decide
      · obtain ⟨digit, hdigit, h⟩ := Option.bind_eq_some_iff.mp h
        exact htake.trans (.ordinary (isOrdinary_of_hexValue? hdigit) (ih h))

theorem takes_hex {count : Nat} (h : hex verbose count cs = some (e, later)) :
    Takes verbose cs later := by
  have htake := takes_skip verbose cs
  unfold hex at h
  split at h
  next => cases h
  next rest hskip =>
    obtain ⟨⟨c, last⟩, hbraced, heq⟩ := Option.map_eq_some_iff.mp h
    cases heq
    rw [hskip] at htake
    exact htake.trans (.ordinary (by decide) (takes_hexBraced hbraced))
  next =>
    obtain ⟨⟨c, last⟩, hfixed, heq⟩ := Option.map_eq_some_iff.mp h
    cases heq
    exact htake.trans (takes_hexFixed hfixed)

theorem isOrdinary_of_isAlpha (h : (c.isAlpha || c == '-') = true) : IsOrdinary c :=
  isOrdinary_of (p := fun c => c.isAlpha || c == '-') h (by decide)

theorem takes_boundaryName (verbose : Bool) (limit : Nat) (cs : List Char) :
    Takes verbose cs (boundaryName verbose limit cs).2 := by
  induction limit generalizing cs with
  | zero => exact .nothing cs
  | succ limit ih =>
    cases cs with
    | nil => exact .nothing _
    | cons c rest =>
      rw [boundaryName]
      split_ifs with hletter
      · exact .ordinary (isOrdinary_of_isAlpha hletter) ((takes_skip verbose rest).trans (ih _))
      · exact .nothing _

/-- A boundary is taken whole, with its name and the braces around the name if
it has one. -/
theorem takes_boundary {kind : Assertion} (h : boundary verbose cs = some (kind, later)) :
    Takes verbose cs later := by
  unfold boundary at h
  split at h
  next rest =>
    split at h
    next => cases h
    next c inside hskip =>
      have htake := takes_skip verbose rest
      rw [hskip] at htake
      have hname := takes_boundaryName verbose (inside.length + 1) (c :: inside)
      split_ifs at h
      · split at h
        next name last heq =>
          obtain ⟨_, -, hlast⟩ := Option.map_eq_some_iff.mp h
          cases hlast
          rw [heq] at hname
          have hclose := hname.trans (.ordinary (by decide) (.nothing _))
          exact .ordinary (by decide) (htake.trans hclose)
        next => cases h
      · cases h
        exact .nothing _
  next =>
    cases h
    exact .nothing _

/-- An escape has a character behind its backslash, and what it takes behind
that is taken whole. -/
theorem exists_of_escape (h : escape verbose cs = some (e, later)) :
    ∃ c rest, cs = c :: rest ∧ Takes verbose rest later := by
  unfold escape at h
  split at h
  next => cases h
  next c rest =>
    refine ⟨c, rest, rfl, ?_⟩
    split_ifs at h
    · exact takes_hex h
    · exact takes_hex h
    · exact takes_hex h
    · obtain ⟨⟨kind, last⟩, hboundary, heq⟩ := Option.map_eq_some_iff.mp h
      cases heq
      exact takes_boundary hboundary
    · cases h
      exact .nothing _
    · split at h <;> cases h <;> exact .nothing _

theorem takes_escape (h : escape verbose cs = some (e, later)) :
    Takes verbose ('\\' :: cs) later := by
  obtain ⟨c, rest, rfl, htake⟩ := exists_of_escape h
  exact .escape htake

/-- A member of a class is an escape or a character. -/
theorem takes_member (h : member verbose cs = some (e, later))
    (hbracket : verbose = false → ∀ c ∈ cs.head?, c ≠ '[' ∧ c ≠ ']') : Takes verbose cs later := by
  unfold member at h
  split at h
  next => cases h
  next rest => exact takes_escape h
  next c rest hescape =>
    cases h
    exact .char (by rintro rfl; exact hescape rfl)
      (fun hverbose => ⟨by rintro rfl; exact hescape rfl, hbracket hverbose c rfl⟩) (.nothing _)

theorem Takes.of_skip {last : List Char} (hskip : skip verbose cs = later)
    (h : Takes true later last) : Takes true cs last := by
  have htake := takes_skip verbose cs
  rw [hskip] at htake
  exact htake.any.trans h

/-- What is read as a member: one character or class, or a range of
characters. -/
theorem range_cases {item : ClassItem} (h : range verbose cs = some (item, later)) :
    ∃ first rest, member verbose cs = some (first, rest) ∧
      (first.item? = some item ∧ skip verbose rest = later ∨
        ∃ tail last low high, skip verbose rest = '-' :: tail ∧ peek verbose tail ≠ some ']' ∧
          member verbose (skip verbose tail) = some (last, later) ∧ item = .range low high) := by
  simp only [range, Option.bind_eq_bind, Option.bind_eq_some_iff, Prod.exists] at h
  obtain ⟨first, rest, hfirst, h⟩ := h
  refine ⟨first, rest, hfirst, ?_⟩
  split at h
  next => cases h
  next tail hskip =>
    split_ifs at h with hpeek
    · obtain ⟨_, hitem, h⟩ := Option.bind_eq_some_iff.mp h
      cases h
      exact .inl ⟨hitem, hskip⟩
    · simp only [Option.bind_eq_some_iff, Prod.exists] at h
      obtain ⟨last, more, hlast, low, -, high, -, h⟩ := h
      split_ifs at h
      cases h
      exact .inr ⟨tail, last, low, high, hskip, fun hclose => hpeek (.inl hclose), hlast, rfl⟩
  next =>
    obtain ⟨_, hitem, h⟩ := Option.bind_eq_some_iff.mp h
    cases h
    exact .inl ⟨hitem, rfl⟩

theorem takes_member_any (h : member verbose cs = some (e, later)) : Takes true cs later := by
  cases verbose with
  | true => exact takes_member h (fun h => absurd h (by decide))
  | false =>
    unfold member at h
    split at h
    next => cases h
    next rest => exact (takes_escape h).any
    next c rest hescape =>
      cases h
      exact .char (by rintro rfl; exact hescape rfl) (fun h => absurd h (by decide)) (.nothing _)

theorem takes_range {item : ClassItem} (h : range verbose cs = some (item, later)) :
    Takes true cs later := by
  obtain ⟨first, rest, hfirst, hrest⟩ := range_cases h
  refine (takes_member_any hfirst).trans ?_
  rcases hrest with ⟨-, rfl⟩ | ⟨tail, last, low, high, hskip, -, hlast, -⟩
  · exact (takes_skip verbose rest).any
  · exact .of_skip hskip (.ordinary (by decide)
      ((takes_skip verbose tail).any.trans (takes_member_any hlast)))

theorem isOrdinary_of_ofSpelling? {name : List Char} {kind : Named}
    (h : Named.ofSpelling? (String.ofList name) = some kind) : ∀ c ∈ name, IsOrdinary c := by
  have hname : kind.spelling = String.ofList name := by
    have hfound := List.find?_some h
    simpa using hfound
  have hletters : kind.spelling.toList.all (fun c => decide (IsOrdinary c)) = true := by
    cases kind <;> decide +kernel
  rw [hname, String.toList_ofList, List.all_eq_true] at hletters
  exact fun c hc => of_decide_eq_true (hletters c hc)

theorem Takes.append {used : List Char} (hused : ∀ c ∈ used, IsOrdinary c)
    (h : Takes verbose cs later) : Takes verbose (used ++ cs) later := by
  induction used with
  | nil => exact h
  | cons c used ih =>
    obtain ⟨hc, hused⟩ := List.forall_mem_cons.mp hused
    exact .ordinary hc (ih hused)

/-- A named class is taken up to the bracket that closes it. -/
theorem takes_named? {item : ClassItem} (h : named? cs = some (item, later)) :
    Takes true cs later := by
  -- Behind the optional caret both spellings go on alike, up to the colon and the bracket.
  have hname : ∀ {tail name last : List Char} {kind : Named},
      tail.span (· != ':') = (name, ':' :: ']' :: last) →
        Named.ofSpelling? (String.ofList name) = some kind → Takes true tail last := by
    intro tail name last kind hspan hkind
    rw [List.span_eq_takeWhile_dropWhile, Prod.mk.injEq] at hspan
    rw [← List.takeWhile_append_dropWhile (p := (· != ':')) (l := tail), hspan.1, hspan.2]
    refine .append (isOrdinary_of_ofSpelling? hkind) (.ordinary (by decide) ?_)
    exact .char (by decide) (fun h => absurd h (by decide)) (.nothing _)
  unfold named? at h
  split at h
  next rest =>
    refine .ordinary (by decide) ?_
    split at h
    next negated tail heq =>
      split at h
      next name last hspan =>
        obtain ⟨kind, hkind, hitem⟩ := Option.map_eq_some_iff.mp h
        cases hitem
        split at heq
        next =>
          cases heq
          exact .ordinary (by decide) (hname hspan hkind)
        next =>
          cases heq
          exact hname hspan hkind
      next => cases h
  next => cases h

theorem takes_leading (limit : Nat) (items : List ClassItem) (cs : List Char) :
    Takes true cs (leading verbose limit items cs).2 := by
  induction limit generalizing items cs with
  | zero => exact .nothing cs
  | succ limit ih =>
    unfold leading
    split
    next rest => exact .ordinary (by decide) ((takes_skip verbose rest).any.trans (ih _ _))
    next rest =>
      split_ifs
      · exact .char (by decide) (fun h => absurd h (by decide)) (takes_skip verbose rest).any
      · exact .nothing _
    next => exact .nothing _

theorem takes_opening (cs : List Char) : Takes true cs (opening verbose cs).2.2 := by
  unfold opening
  split
  next rest hskip =>
    exact .of_skip hskip (.ordinary (by decide)
      ((takes_skip verbose rest).any.trans (takes_leading _ _ _)))
  next => exact (takes_skip verbose cs).any.trans (takes_leading _ _ _)

/-- A class is taken up to its closing bracket, with all classes inside it. -/
theorem takes_classRest {limit : Nat} {left : Option (SetOperation × ClassSet)}
    {items : List ClassItem} {set : ClassSet}
    (h : classRest verbose limit left items cs = some (set, later)) :
    Takes true cs (']' :: later) := by
  induction limit generalizing left items cs set later with
  | zero => cases h
  | succ limit ih =>
    -- Taken as in a verbose pattern, brackets pass like any other character.
    have hbracket : ∀ {c : Char} {rest last : List Char}, c ≠ '\\' → Takes true rest last →
        Takes true (c :: rest) last :=
      fun hc => .char hc fun h => absurd h (by decide)
    rw [classRest] at h
    split at h
    next => cases h
    next rest hskip =>
      cases h
      exact .of_skip hskip (.nothing _)
    next rest hskip =>
      refine .of_skip hskip (hbracket (by decide) ?_)
      split at h
      next item last hnamed => exact (takes_named? hnamed).trans (ih h)
      next =>
        simp only at h
        split at h
        next set last hclass =>
          exact (takes_opening rest).trans ((ih hclass).trans (hbracket (by decide) (ih h)))
        next => cases h
    next rest hskip =>
      exact .of_skip hskip (hbracket (by decide) (hbracket (by decide) (ih h)))
    next rest hskip =>
      exact .of_skip hskip (hbracket (by decide) (hbracket (by decide) (ih h)))
    next rest hskip =>
      exact .of_skip hskip (hbracket (by decide) (hbracket (by decide) (ih h)))
    next =>
      split at h
      next item last hrange =>
        exact .of_skip rfl ((takes_range hrange).trans (ih h))
      next => cases h

theorem exists_of_bracketed {item : Syntax} (h : bracketed verbose cs = some (item, later)) :
    ∃ negated set, item = .bracketed negated set := by
  obtain ⟨⟨set, last⟩, -, heq⟩ := Option.map_eq_some_iff.mp h
  cases heq
  exact ⟨_, _, rfl⟩

theorem takes_bracketed {item : Syntax} (h : bracketed verbose cs = some (item, later)) :
    Takes true cs (']' :: later) := by
  obtain ⟨⟨set, last⟩, hclass, heq⟩ := Option.map_eq_some_iff.mp h
  cases heq
  exact (takes_opening cs).trans (takes_classRest hclass)

theorem takes_dropBlanks (verbose : Bool) (cs : List Char) :
    Takes verbose cs (cs.dropWhile Text.isBlank) := by
  have hblank : ∀ c ∈ cs.takeWhile Text.isBlank, IsOrdinary c :=
    fun c hc => isOrdinary_of (List.mem_takeWhile_imp hc) (by decide)
  have htake : Takes verbose (cs.takeWhile Text.isBlank ++ cs.dropWhile Text.isBlank) _ :=
    .append hblank (.nothing _)
  rwa [List.takeWhile_append_dropWhile] at htake

theorem takes_countDigits (verbose : Bool) (limit : Nat) (cs : List Char) :
    Takes verbose cs (countDigits verbose limit cs).2 := by
  induction limit generalizing cs with
  | zero => exact .nothing cs
  | succ limit ih =>
    cases cs with
    | nil => exact .nothing _
    | cons c rest =>
      rw [countDigits]
      split_ifs with hdigit
      · exact .ordinary (isOrdinary_of hdigit (by decide)) ((takes_skip verbose rest).trans (ih _))
      · exact .nothing _

theorem takes_count (verbose : Bool) (cs : List Char) : Takes verbose cs (count verbose cs).2 := by
  have hdigits := (takes_dropBlanks verbose cs).trans
    (takes_countDigits verbose (cs.dropWhile Text.isBlank).length _)
  refine hdigits.trans ?_
  simp only [count]
  generalize (countDigits verbose _ _).2 = rest
  cases rest with
  | nil => exact .nothing _
  | cons c rest =>
    rw [skipBlanks]
    split_ifs
    · exact (takes_dropBlanks verbose _).trans (takes_skip verbose _)
    · exact .nothing _

theorem takes_dropQuestion (cs : List Char) : Takes verbose cs (dropQuestion cs) := by
  unfold dropQuestion
  split
  next rest => exact .ordinary (by decide) (.nothing _)
  next => exact .nothing _

/-- The bounds of a repetition are digits and a comma, with blanks between them,
up to the closing brace. -/
theorem takes_bounds {bound : Nat × Option Nat} (h : bounds verbose cs = some (bound, later)) :
    Takes verbose cs later := by
  have hlow := (takes_skip verbose cs).trans (takes_count verbose (skip verbose cs))
  refine hlow.trans ?_
  have hclose : ∀ rest, Takes verbose ('}' :: rest) (dropQuestion (skip verbose rest)) :=
    fun rest => .ordinary (by decide) ((takes_skip verbose rest).trans (takes_dropQuestion _))
  unfold bounds at h
  split at h
  next low rest hcount =>
    cases h
    rw [hcount]
    exact hclose rest
  next low rest hcount =>
    rw [hcount]
    refine .ordinary (by decide) ((takes_skip verbose rest).trans ?_)
    split at h
    next last hskip =>
      cases h
      rw [hskip]
      exact hclose last
    next =>
      have hhigh := takes_count verbose (skip verbose rest)
      split at h
      next high last hcount =>
        split_ifs at h
        cases h
        rw [hcount] at hhigh
        exact hhigh.trans (hclose last)
      next => cases h
  next => cases h

def isNamePart (c : Char) : Bool := isNameStart c || isNameChar c

/-- A character outside all the sets that names are made of can stand in no
name. -/
theorem isNamePart_eq_false
    (h : (c == '_' || c == '.' || c == '[' || c == ']' || Text.alphabetic.contains c ||
      Text.digits.contains c || Text.numberForms.contains c) = false) : isNamePart c = false := by
  simp only [Bool.or_eq_false_iff] at h
  obtain ⟨⟨⟨⟨⟨⟨hscore, hpoint⟩, hopen⟩, hclose⟩, halpha⟩, hdigit⟩, hform⟩ := h
  have hnumeric : Text.alphanumeric.contains c = false := by
    rw [Bool.eq_false_iff]
    intro hcontains
    rcases CharSet.contains_of_contains_union hcontains with hcontains | hcontains
    · rcases CharSet.contains_of_contains_union hcontains with hcontains | hcontains
      · rw [halpha] at hcontains
        cases hcontains
      · rw [hdigit] at hcontains
        cases hcontains
    · rw [hform] at hcontains
      cases hcontains
  simp only [isNamePart, isNameStart, isNameChar, hscore, hpoint, hopen, hclose, halpha, hnumeric,
    Bool.or_self]

/-- The name of a group stands in front of its closing angle bracket, and is
made of characters of names. -/
theorem groupName_eq_some {name : String} (h : groupName cs = some (name, later)) :
    cs = name.toList ++ '>' :: later ∧ ∀ c ∈ name.toList, isNamePart c = true := by
  unfold groupName at h
  split at h
  next first more angle rest hspan =>
    split_ifs at h with hname
    cases h
    rw [Bool.and_eq_true, List.all_eq_true] at hname
    rw [List.span_eq_takeWhile_dropWhile, Prod.mk.injEq] at hspan
    have hangle : angle = '>' := by
      have hhead := List.head?_dropWhile_not (· != '>') cs
      rw [hspan.2] at hhead
      simpa using hhead
    have hsplit : cs = (first :: more) ++ angle :: later := by
      rw [← hspan.1, ← hspan.2, List.takeWhile_append_dropWhile]
    rw [String.toList_ofList, ← hangle]
    refine ⟨hsplit, List.forall_mem_cons.mpr ⟨?_, fun c hc => ?_⟩⟩
    · rw [isNamePart, hname.1, Bool.true_or]
    · rw [isNamePart, hname.2 c hc, Bool.or_true]
  next => cases h

/-- A name may hold brackets, so it is taken whole only in the weaker sense of a
verbose pattern. -/
theorem takes_groupName {name : String} (h : groupName cs = some (name, later)) :
    Takes true cs later := by
  obtain ⟨rfl, hname⟩ := groupName_eq_some h
  have hescape : isNamePart '\\' = false := isNamePart_eq_false (by decide +kernel)
  generalize name.toList = chars at hname
  induction chars with
  | nil => exact .ordinary (by decide) (.nothing _)
  | cons c chars ih =>
    obtain ⟨hc, hchars⟩ := List.forall_mem_cons.mp hname
    refine .char ?_ (fun h => absurd h (by decide)) (ih hchars)
    rintro rfl
    rw [hescape] at hc
    cases hc

theorem isOrdinary_of_flag {flag : Flag} (h : Flag.ofLetter? c = some flag) : IsOrdinary c :=
  isOrdinary_of (p := fun c => (Flag.ofLetter? c).isSome) (by simp [h]) (by decide)

theorem takes_flagList {on : Bool} {flags found : Flags}
    (h : flagList on flags cs = some (found, later)) : Takes verbose cs later := by
  fun_induction flagList on flags cs with
  | case1 | case3 | case5 | case6 | case8 => cases h
  | case2 =>
    cases h
    exact .nothing _
  | case4 _ _ _ _ _ _ ih => exact .ordinary (by decide) (ih h)
  | case7 _ _ _ _ _ _ _ hflag _ ih => exact .ordinary (isOrdinary_of_flag hflag) (ih h)

theorem takes_flagOpening {start : Opening} (h : flagOpening cs = some (start, later)) :
    Takes true cs later := by
  unfold flagOpening at h
  split at h
  next flags rest hflags =>
    cases h
    exact (takes_flagList hflags).trans (.ordinary (by decide) (.nothing _))
  next flags rest hflags =>
    split_ifs at h
    cases h
    exact (takes_flagList hflags).trans (.ordinary (by decide) (.nothing _))
  next => cases h

/-- What opens a group, from its parenthesis up to its contents, with a name or
with flags or without. -/
theorem takes_groupOpening {start : Opening}
    (h : groupOpening verbose cs = some (start, later)) : Takes true cs later := by
  have hopen : ∀ {c : Char} {rest : List Char}, IsOrdinary c → Takes true rest later →
      Takes true (c :: rest) later := fun hc => .ordinary hc
  unfold groupOpening at h
  split at h
  · cases h
  · cases h
  · cases h
  · cases h
  · next rest hskip =>
    obtain ⟨⟨name, last⟩, hname, heq⟩ := Option.map_eq_some_iff.mp h
    cases heq
    exact .of_skip hskip (hopen (by decide) (hopen (by decide) (hopen (by decide)
      (takes_groupName hname))))
  · next rest _ _ hskip =>
    obtain ⟨⟨name, last⟩, hname, heq⟩ := Option.map_eq_some_iff.mp h
    cases heq
    exact .of_skip hskip (hopen (by decide) (hopen (by decide) (takes_groupName hname)))
  · next rest _ _ _ _ _ _ hskip =>
    exact .of_skip hskip (hopen (by decide) (takes_flagOpening h))
  · cases h
    exact (takes_skip verbose cs).any

end

end Reader

end Pattern

end BlockLang
