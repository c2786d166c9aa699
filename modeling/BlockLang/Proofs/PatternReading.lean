import BlockLang.Proofs.PatternReaders

/-! # How patterns are read

A pattern is read from left to right. The limit of the reader is never reached, so reading is a
relation between the characters and the pattern, by which the parts of the pattern can be followed.
Flags in front of a pattern do not change how the rest is read.
-/

namespace BlockLang.Pattern

/-! ## Parts of a pattern -/

/-- Whether a pattern is a part of another one, or is that one. -/
inductive Syntax.Within (t : Syntax) : Syntax → Prop
  | self : Within t t
  | repeated {low : Nat} {high : Option Nat} {body : Syntax} (h : Within t body) :
      Within t (.repeated low high body)
  | group {kind : Group} {body : Syntax} (h : Within t body) : Within t (.group kind body)
  | sequence {items : List Syntax} {item : Syntax} (hmem : item ∈ items) (h : Within t item) :
      Within t (.sequence items)
  | alternatives {items : List Syntax} {item : Syntax} (hmem : item ∈ items) (h : Within t item) :
      Within t (.alternatives items)

namespace Reader

/-! ## Reading without a limit -/

def itemMarks : List Char := [')', '|', '(', '[', '?', '*', '+', '{', '\\', '.', '^', '$']

/-- What is read as one item, and what is left behind it. -/
inductive Atom (verbose : Bool) : List Char → Syntax → List Char → Prop
  | bracketed {rest later : List Char} {item : Syntax}
      (h : bracketed verbose rest = some (item, later)) : Atom verbose ('[' :: rest) item later
  | escape {rest later : List Char} {e : Escaped} (h : escape verbose rest = some (e, later)) :
      Atom verbose ('\\' :: rest) e.toSyntax later
  | dot (rest : List Char) : Atom verbose ('.' :: rest) .dot rest
  | lineStart (rest : List Char) : Atom verbose ('^' :: rest) (.assertion .lineStart) rest
  | lineEnd (rest : List Char) : Atom verbose ('$' :: rest) (.assertion .lineEnd) rest
  | char {c : Char} (h : c ∉ itemMarks) (rest : List Char) : Atom verbose (c :: rest) (.char c) rest

/-- What is read as the bounds of a repetition, and what is left behind it. -/
inductive Repeats (verbose : Bool) : List Char → Nat → Option Nat → List Char → Prop
  | question (rest : List Char) : Repeats verbose ('?' :: rest) 0 (some 1) (dropQuestion rest)
  | star (rest : List Char) : Repeats verbose ('*' :: rest) 0 none (dropQuestion rest)
  | plus (rest : List Char) : Repeats verbose ('+' :: rest) 1 none (dropQuestion rest)
  | bounds {rest later : List Char} {low : Nat} {high : Option Nat}
      (h : bounds verbose rest = some ((low, high), later)) :
      Repeats verbose ('{' :: rest) low high later

def verboseInside (verbose : Bool) : Group → Bool
  | .flagged flags => verboseAfter verbose flags
  | .captured | .named _ | .namedWithLetter _ => verbose

/-- How a pattern is read, up to its end or to a closing parenthesis: the names
of all groups, the pattern, and what is left. -/
inductive Reads : Partial → List Char → List String → Syntax → List Char → Prop
  | stop {p : Partial} {cs later : List Char} (hskip : skip p.verbose cs = later)
      (hlater : ∀ c ∈ later.head?, c = ')') : Reads p cs p.names p.finish later
  | branch {p : Partial} {cs rest later : List Char} {names : List String} {read : Syntax}
      (hskip : skip p.verbose cs = '|' :: rest) (hrest : Reads p.branch rest names read later) :
      Reads p cs names read later
  | flags {p : Partial} {cs rest inside later : List Char} {names : List String} {read : Syntax}
      {flags : Flags} (hskip : skip p.verbose cs = '(' :: rest)
      (hopening : groupOpening p.verbose rest = some (.flags flags, inside))
      (hrest : Reads { p.push (.flags flags) with verbose := verboseAfter p.verbose flags } inside
        names read later) : Reads p cs names read later
  | group {p : Partial} {cs rest inside last later : List Char}
      {names₁ names₂ names : List String} {kind : Group} {body read : Syntax}
      (hskip : skip p.verbose cs = '(' :: rest)
      (hopening : groupOpening p.verbose rest = some (.group kind, inside))
      (hnames : addName? p.names kind = some names₁)
      (hbody : Reads { verbose := verboseInside p.verbose kind, names := names₁ } inside names₂ body
        (')' :: last))
      (hrest : Reads { p.push (.group kind body) with names := names₂ } last names read later) :
      Reads p cs names read later
  | item {p : Partial} {cs start rest later : List Char} {names : List String} {item read : Syntax}
      (hskip : skip p.verbose cs = start) (hitem : Atom p.verbose start item rest)
      (hrest : Reads (p.push item) rest names read later) : Reads p cs names read later
  | repeated {p p' : Partial} {cs start rest later : List Char} {names : List String}
      {read : Syntax} {low : Nat} {high : Option Nat} (hskip : skip p.verbose cs = start)
      (hbounds : Repeats p.verbose start low high rest) (hlast : p.repeated? low high = some p')
      (hrest : Reads p' rest names read later) : Reads p cs names read later

variable {limit : Nat} {p : Partial} {cs later : List Char} {names : List String}
  {read item : Syntax} {verbose : Bool}

/-- What the reader gives is read by the rules, with its limit forgotten. -/
theorem reads_of_pattern (h : pattern limit p cs = some (names, read, later)) :
    Reads p cs names read later := by
  induction limit generalizing p cs names read later with
  | zero => cases h
  | succ limit ih =>
    rw [pattern] at h
    split at h
    next hskip =>
      cases h
      exact .stop hskip (by simp)
    next c rest hskip =>
      split at h
      case h_1 =>
        cases h
        exact .stop hskip (by simp)
      case h_2 => exact .branch hskip (ih h)
      case h_3 =>
        simp only [Option.bind_eq_bind, Option.bind_eq_some_iff, Prod.exists] at h
        obtain ⟨start, inside, hopening, h⟩ := h
        cases start with
        | flags flags => exact .flags hskip hopening (ih h)
        | group kind =>
          simp only [Option.bind_eq_some_iff, Prod.exists] at h
          obtain ⟨names₁, hnames, names₂, body, after, hbody, h⟩ := h
          split at h
          next last heq =>
            cases heq
            refine .group hskip hopening hnames (ih ?_) (ih h)
            cases kind <;> exact hbody
          next => cases h
      case h_4 =>
        simp only [Option.bind_eq_bind, Option.bind_eq_some_iff, Prod.exists] at h
        obtain ⟨item, later, hitem, h⟩ := h
        exact .item hskip (.bracketed hitem) (ih h)
      case h_5 =>
        obtain ⟨p', hlast, h⟩ := Option.bind_eq_some_iff.mp h
        exact .repeated hskip (.question rest) hlast (ih h)
      case h_6 =>
        obtain ⟨p', hlast, h⟩ := Option.bind_eq_some_iff.mp h
        exact .repeated hskip (.star rest) hlast (ih h)
      case h_7 =>
        obtain ⟨p', hlast, h⟩ := Option.bind_eq_some_iff.mp h
        exact .repeated hskip (.plus rest) hlast (ih h)
      case h_8 =>
        simp only [Option.bind_eq_bind, Option.bind_eq_some_iff, Prod.exists] at h
        obtain ⟨low, high, later, hbounds, p', hlast, h⟩ := h
        exact .repeated hskip (.bounds hbounds) hlast (ih h)
      case h_9 =>
        simp only [Option.bind_eq_bind, Option.bind_eq_some_iff, Prod.exists] at h
        obtain ⟨e, later, hescape, h⟩ := h
        exact .item hskip (.escape hescape) (ih h)
      case h_10 => exact .item hskip (.dot rest) (ih h)
      case h_11 => exact .item hskip (.lineStart rest) (ih h)
      case h_12 => exact .item hskip (.lineEnd rest) (ih h)
      -- What is left is no mark of the syntax, so it stands for itself.
      case h_13 =>
        refine .item hskip (.char ?_ rest) (ih h)
        simp only [itemMarks, List.mem_cons, List.not_mem_nil, or_false, not_or]
        refine ⟨?_, ?_, ?_, ?_, ?_, ?_, ?_, ?_, ?_, ?_, ?_, ?_⟩ <;> assumption

/-- An item is taken whole, and takes at least one character. -/
theorem Atom.takes
    (h : Atom verbose cs item later) : Takes true cs later ∧ later.length < cs.length := by
  cases h with
  | bracketed h =>
    have htake := takes_bracketed h
    have hlength := htake.suffix.length_le
    rw [List.length_cons] at hlength ⊢
    exact ⟨.char (by decide) (fun h => absurd h (by decide))
      (htake.trans (.char (by decide) (fun h => absurd h (by decide)) (.nothing _))), by omega⟩
  | escape h =>
    obtain ⟨c, rest, rfl, htake⟩ := exists_of_escape h
    have hlength := htake.suffix.length_le
    rw [List.length_cons, List.length_cons]
    exact ⟨(Takes.escape htake).any, by omega⟩
  | dot rest | lineStart rest | lineEnd rest =>
    exact ⟨.ordinary (by decide) (.nothing _), Nat.lt_succ_self _⟩
  | char hc rest =>
    refine ⟨.char ?_ (fun h => absurd h (by decide)) (.nothing _), Nat.lt_succ_self _⟩
    rintro rfl
    exact hc (by decide)

theorem Atom.eq_of_within {t : Syntax} (h : Atom verbose cs item later)
    (ht : t.Within item) : t = item := by
  cases h with
  | bracketed h =>
    obtain ⟨negated, set, rfl⟩ := exists_of_bracketed h
    cases ht
    rfl
  | @escape _ _ e _ =>
    cases e <;> cases ht <;> rfl
  | dot | lineStart | lineEnd | char =>
    cases ht
    rfl

theorem Repeats.takes {low : Nat} {high : Option Nat} (h : Repeats verbose cs low high later) :
    Takes verbose cs later ∧ later.length < cs.length := by
  have hshorter : ∀ {c : Char} {rest last : List Char}, Takes verbose rest last →
      last.length < (c :: rest).length :=
    fun h => Nat.lt_succ_of_le h.suffix.length_le
  cases h with
  | question rest | star rest | plus rest =>
    exact ⟨.ordinary (by decide) (takes_dropQuestion rest), hshorter (takes_dropQuestion rest)⟩
  | bounds h => exact ⟨.ordinary (by decide) (takes_bounds h), hshorter (takes_bounds h)⟩

theorem pattern_atom {start rest : List Char} (hskip : skip p.verbose cs = start)
    (h : Atom p.verbose start item rest) :
    pattern (limit + 1) p cs = pattern limit (p.push item) rest := by
  cases h with
  | bracketed h | escape h => simp [pattern, hskip, h]
  | dot rest | lineStart rest | lineEnd rest => simp [pattern, hskip]
  | char hc rest =>
    simp only [itemMarks, List.mem_cons, List.not_mem_nil, or_false, not_or] at hc
    rw [pattern, hskip]
    simp only
    split <;> simp_all

theorem pattern_repeats {p' : Partial} {start rest : List Char} {low : Nat} {high : Option Nat}
    (hskip : skip p.verbose cs = start)
    (h : Repeats p.verbose start low high rest) (hlast : p.repeated? low high = some p') :
    pattern (limit + 1) p cs = pattern limit p' rest := by
  cases h with
  | question rest | star rest | plus rest => simp [pattern, hskip, hlast]
  | bounds h => simp [pattern, hskip, h, hlast]

theorem length_skip_le (verbose : Bool) (cs : List Char) :
    (skip verbose cs).length ≤ cs.length :=
  (takes_skip verbose cs).suffix.length_le

/-- A pattern is taken whole up to what is left of it. -/
theorem Reads.takes (h : Reads p cs names read later) : Takes true cs later := by
  have hparen : ∀ {rest last : List Char}, Takes true rest last → Takes true ('(' :: rest) last :=
    fun h => .ordinary (by decide) h
  induction h with
  | stop hskip _ => exact .of_skip hskip (.nothing _)
  | branch hskip _ ih => exact .of_skip hskip (.ordinary (by decide) ih)
  | flags hskip hopening _ ih =>
    exact .of_skip hskip (hparen ((takes_groupOpening hopening).trans ih))
  | group hskip hopening _ _ _ ihbody ih =>
    have hbody := (takes_groupOpening hopening).trans (ihbody.trans (.ordinary (by decide) ih))
    exact .of_skip hskip (hparen hbody)
  | item hskip hitem _ ih => exact .of_skip hskip (hitem.takes.1.trans ih)
  | repeated hskip hbounds _ _ ih => exact .of_skip hskip (hbounds.takes.1.any.trans ih)

/-- No limit is reached that is larger than the number of characters, so the
limit of the reader is not seen. -/
theorem pattern_of_reads (h : Reads p cs names read later) (hlimit : cs.length < limit) :
    pattern limit p cs = some (names, read, later) := by
  -- Every rule takes a character at least, so the limit outlasts the characters left.
  induction h generalizing limit with
  | @stop p cs later hskip hlater =>
    obtain ⟨limit, rfl⟩ := Nat.exists_eq_succ_of_ne_zero (Nat.ne_zero_of_lt hlimit)
    rw [pattern, hskip]
    cases later with
    | nil => rfl
    | cons c rest =>
      obtain rfl := hlater c rfl
      rfl
  | @branch p cs rest later names read hskip _ ih =>
    obtain ⟨limit, rfl⟩ := Nat.exists_eq_succ_of_ne_zero (Nat.ne_zero_of_lt hlimit)
    have hlength := length_skip_le p.verbose cs
    rw [hskip, List.length_cons] at hlength
    rw [pattern, hskip]
    exact ih (by omega)
  | @flags p cs rest inside later names read flags hskip hopening _ ih =>
    obtain ⟨limit, rfl⟩ := Nat.exists_eq_succ_of_ne_zero (Nat.ne_zero_of_lt hlimit)
    have hlength := length_skip_le p.verbose cs
    have hinside := (takes_groupOpening hopening).suffix.length_le
    rw [hskip, List.length_cons] at hlength
    rw [pattern, hskip]
    simp only [hopening]
    exact ih (by omega)
  | @group p cs rest inside last later names₁ names₂ names kind body read hskip hopening hnames
      hbody hrest ihbody ih =>
    obtain ⟨limit, rfl⟩ := Nat.exists_eq_succ_of_ne_zero (Nat.ne_zero_of_lt hlimit)
    have hlength := length_skip_le p.verbose cs
    have hinside := (takes_groupOpening hopening).suffix.length_le
    have hlast := hbody.takes.suffix.length_le
    rw [hskip, List.length_cons] at hlength
    rw [List.length_cons] at hlast
    have hread : pattern limit { verbose := verboseInside p.verbose kind, names := names₁ } inside =
        some (names₂, body, ')' :: last) := ihbody (by omega)
    have hagain : pattern limit { p.push (.group kind body) with names := names₂ } last =
        some (names, read, later) := ih (by omega)
    rw [pattern, hskip]
    simp only [hopening, hnames, Option.bind_eq_bind, Option.bind_some]
    cases kind with
    | captured | named _ | namedWithLetter _ | flagged _ =>
      rw [verboseInside] at hread
      simp only [hread, Option.bind_some]
      exact hagain
  | @item p cs start rest later names item read hskip hitem _ ih =>
    obtain ⟨limit, rfl⟩ := Nat.exists_eq_succ_of_ne_zero (Nat.ne_zero_of_lt hlimit)
    have hlength := length_skip_le p.verbose cs
    have hshorter := hitem.takes.2
    rw [hskip] at hlength
    rw [pattern_atom hskip hitem]
    exact ih (by omega)
  | @repeated p p' cs start rest later names read low high hskip hbounds hlast _ ih =>
    obtain ⟨limit, rfl⟩ := Nat.exists_eq_succ_of_ne_zero (Nat.ne_zero_of_lt hlimit)
    have hlength := length_skip_le p.verbose cs
    have hshorter := hbounds.takes.2
    rw [hskip] at hlength
    rw [pattern_repeats hskip hbounds hlast]
    exact ih (by omega)

end Reader

structure Structural (P : Syntax → Prop) : Prop where
  empty : P .empty
  repeated : ∀ low high body, P (.repeated low high body)
  sequence : ∀ items, P (.sequence items)
  alternatives : ∀ items, P (.alternatives items)

namespace Reader

theorem within_sequenceOf {t item : Syntax} {items : List Syntax} (hmem : item ∈ items)
    (h : t.Within item) : t.Within (sequenceOf items) := by
  match items with
  | [_] =>
    rw [List.mem_singleton.mp hmem] at h
    exact h
  | _ :: _ :: _ => exact .sequence (List.mem_reverse.mpr hmem) h

theorem within_alternativesOf {t item : Syntax} {items : List Syntax} (hmem : item ∈ items)
    (h : t.Within item) : t.Within (alternativesOf items) := by
  match items with
  | [_] =>
    rw [List.mem_singleton.mp hmem] at h
    exact h
  | _ :: _ :: _ => exact .alternatives (List.mem_reverse.mpr hmem) h

section

variable {P : Syntax → Prop} (hP : Structural P)

include hP

theorem forall_within_sequenceOf {items : List Syntax}
    (h : ∀ item ∈ items, ∀ t : Syntax, t.Within item → P t) :
    ∀ t : Syntax, t.Within (sequenceOf items) → P t := by
  intro t ht
  match items with
  | [] =>
    cases ht
    exact hP.empty
  | [item] => exact h item List.mem_cons_self t ht
  | _ :: _ :: _ =>
    cases ht with
    | self => exact hP.sequence _
    | sequence hmem ht => exact h _ (List.mem_reverse.mp hmem) t ht

theorem forall_within_alternativesOf {items : List Syntax}
    (h : ∀ item ∈ items, ∀ t : Syntax, t.Within item → P t) :
    ∀ t : Syntax, t.Within (alternativesOf items) → P t := by
  intro t ht
  match items with
  | [] =>
    cases ht
    exact hP.empty
  | [item] => exact h item List.mem_cons_self t ht
  | _ :: _ :: _ =>
    cases ht with
    | self => exact hP.alternatives _
    | alternatives hmem ht => exact h _ (List.mem_reverse.mp hmem) t ht

end

namespace Partial

def Holds (p : Partial) (t : Syntax) : Prop :=
  ∃ s, (s ∈ p.items ∨ s ∈ p.branches) ∧ t.Within s

variable {p p' : Partial} {t item : Syntax}

theorem Holds.finish (h : p.Holds t) : t.Within p.finish := by
  obtain ⟨s, hs | hs, ht⟩ := h
  · exact within_alternativesOf List.mem_cons_self (within_sequenceOf hs ht)
  · exact within_alternativesOf (List.mem_cons_of_mem _ hs) ht

theorem Holds.push (h : p.Holds t) : (p.push item).Holds t := by
  obtain ⟨s, hs, ht⟩ := h
  exact ⟨s, hs.imp_left (List.mem_cons_of_mem _), ht⟩

theorem holds_push (h : t.Within item) : (p.push item).Holds t :=
  ⟨item, .inl List.mem_cons_self, h⟩

theorem Holds.branch (h : p.Holds t) : p.branch.Holds t := by
  obtain ⟨s, hs | hs, ht⟩ := h
  · exact ⟨_, .inr List.mem_cons_self, within_sequenceOf hs ht⟩
  · exact ⟨s, .inr (List.mem_cons_of_mem _ hs), ht⟩

/-- A repetition takes the place of the last item, which may be anything but
flags. -/
theorem repeated?_eq_some {low : Nat} {high : Option Nat} (h : p.repeated? low high = some p') :
    ∃ item before, p.items = item :: before ∧ (∀ flags, item ≠ .flags flags) ∧
      p' = { p with items := .repeated low high item :: before } := by
  obtain ⟨items, hitems, rfl⟩ := Option.map_eq_some_iff.mp h
  unfold repeatLast at hitems
  split at hitems
  · cases hitems
  · cases hitems
  · next item before hflags heq =>
    cases hitems
    exact ⟨item, before, heq, hflags, rfl⟩

theorem Holds.repeated {low : Nat} {high : Option Nat} (h : p.Holds t)
    (hlast : p.repeated? low high = some p') : p'.Holds t := by
  obtain ⟨item, before, hitems, -, rfl⟩ := repeated?_eq_some hlast
  obtain ⟨s, hs | hs, ht⟩ := h
  · rw [hitems] at hs
    rcases List.mem_cons.mp hs with rfl | hs
    · exact ⟨_, .inl List.mem_cons_self, .repeated ht⟩
    · exact ⟨s, .inl (List.mem_cons_of_mem _ hs), ht⟩
  · exact ⟨s, .inr hs, ht⟩

def All (P : Syntax → Prop) (p : Partial) : Prop := ∀ t, p.Holds t → P t

section

variable {P : Syntax → Prop}

theorem all_start (verbose : Bool) (names : List String) : All P { verbose, names } := by
  rintro t ⟨s, hs | hs, -⟩ <;> cases hs

theorem All.push (h : p.All P) (hitem : ∀ t : Syntax, t.Within item → P t) :
    (p.push item).All P := by
  rintro t ⟨s, hs | hs, ht⟩
  · rcases List.mem_cons.mp hs with rfl | hs
    · exact hitem t ht
    · exact h t ⟨s, .inl hs, ht⟩
  · exact h t ⟨s, .inr hs, ht⟩

theorem All.items (h : p.All P) : ∀ item ∈ p.items, ∀ t : Syntax, t.Within item → P t :=
  fun item hitem t ht => h t ⟨item, .inl hitem, ht⟩

theorem All.branch (hP : Structural P) (h : p.All P) : p.branch.All P := by
  rintro t ⟨s, hs | hs, ht⟩
  · cases hs
  · rcases List.mem_cons.mp hs with rfl | hs
    · exact forall_within_sequenceOf hP h.items t ht
    · exact h t ⟨s, .inr hs, ht⟩

theorem All.repeated (hP : Structural P) (h : p.All P) {low : Nat} {high : Option Nat}
    (hlast : p.repeated? low high = some p') : p'.All P := by
  obtain ⟨item, before, hitems, -, rfl⟩ := repeated?_eq_some hlast
  have hbefore := h.items
  rw [hitems] at hbefore
  rintro t ⟨s, hs | hs, ht⟩
  · rcases List.mem_cons.mp hs with rfl | hs
    · cases ht with
      | self => exact hP.repeated low high item
      | repeated ht => exact hbefore item List.mem_cons_self t ht
    · exact hbefore s (List.mem_cons_of_mem _ hs) t ht
  · exact h t ⟨s, .inr hs, ht⟩

/-- What holds of all parts that were read holds of all parts of the pattern
that they make. -/
theorem All.finish (hP : Structural P) (h : p.All P) : ∀ t : Syntax, t.Within p.finish → P t := by
  apply forall_within_alternativesOf hP
  intro s hs
  rcases List.mem_cons.mp hs with rfl | hs
  · exact forall_within_sequenceOf hP h.items
  · exact fun t ht => h t ⟨s, .inr hs, ht⟩

end

end Partial

/-- What has been read stays a part of the pattern, whatever is read behind
it. -/
theorem Reads.within {p : Partial} {cs later : List Char} {names : List String} {read t : Syntax}
    (h : Reads p cs names read later) (ht : p.Holds t) : t.Within read := by
  induction h with
  | stop => exact ht.finish
  | branch _ _ ih => exact ih ht.branch
  | flags _ _ _ ih => exact ih ht.push
  | group _ _ _ _ _ _ ih => exact ih ht.push
  | item _ _ _ ih => exact ih ht.push
  | repeated _ _ hlast _ ih => exact ih (ht.repeated hlast)

/-! ## Flags in front -/

theorem maxDepth_le_iff {items : List Syntax} {n : Nat} :
    Syntax.maxDepth items ≤ n ↔ ∀ item ∈ items, item.depth ≤ n := by
  induction items with
  | nil => simp [Syntax.maxDepth]
  | cons item items ih => simp only [Syntax.maxDepth, Nat.max_le, ih, List.forall_mem_cons]

/-- Whether each pattern of a list is at most as deep as one of another list. -/
def Shallower (xs ys : List Syntax) : Prop := ∀ x ∈ xs, ∃ y ∈ ys, x.depth ≤ y.depth

theorem Shallower.maxDepth_le {xs ys : List Syntax} (h : Shallower xs ys) :
    Syntax.maxDepth xs.reverse ≤ Syntax.maxDepth ys.reverse := by
  rw [maxDepth_le_iff]
  intro x hx
  obtain ⟨y, hy, hle⟩ := h x (List.mem_reverse.mp hx)
  exact Nat.le_trans hle (maxDepth_le_iff.mp (Nat.le_refl _) y (List.mem_reverse.mpr hy))

/-- Alternatives that are each less deep make a pattern that is less deep, if
there are as many of them. -/
theorem depth_alternativesOf_le {xs ys : List Syntax} (hlength : xs.length = ys.length)
    (h : Shallower xs ys) : (alternativesOf xs).depth ≤ (alternativesOf ys).depth := by
  match xs, ys, hlength with
  | [], [], _ => exact Nat.le_refl _
  | [x], [y], _ =>
    obtain ⟨y', hy', hle⟩ := h x List.mem_cons_self
    rw [List.mem_singleton.mp hy'] at hle
    exact hle
  | _ :: _ :: _, _ :: _ :: _, _ => exact Nat.succ_le_succ h.maxDepth_le

/-- Flags in front make a sequence no less deep, though they may turn an item
into a sequence. -/
theorem depth_sequenceOf_flags_le (items : List Syntax) (flags : Flags) :
    (sequenceOf items).depth ≤ (sequenceOf (items ++ [.flags flags])).depth := by
  have hmore : Shallower items (items ++ [.flags flags]) :=
    fun x hx => ⟨x, List.mem_append_left _ hx, Nat.le_refl _⟩
  match items with
  | [] => exact Nat.zero_le _
  | [item] =>
    have hdepth := maxDepth_le_iff.mp (Nat.le_refl (Syntax.maxDepth [.flags flags, item])) item
      (List.mem_cons_of_mem _ List.mem_cons_self)
    exact Nat.le_succ_of_le hdepth
  | _ :: _ :: _ => exact Nat.succ_le_succ hmore.maxDepth_le

/-- Whether two states of reading differ at most in flags in front of the
current alternative and in alternatives that were no deeper without their
flags. -/
structure Unflagged (p q : Partial) : Prop where
  verbose : p.verbose = q.verbose
  names : p.names = q.names
  items : q.items = p.items ∨ ∃ flags, q.items = p.items ++ [.flags flags]
  length : p.branches.length = q.branches.length
  branches : Shallower p.branches q.branches

namespace Unflagged

variable {p q : Partial}

theorem push (h : Unflagged p q) (item : Syntax) : Unflagged (p.push item) (q.push item) where
  verbose := h.verbose
  names := h.names
  items := by
    refine h.items.imp (congrArg (item :: ·)) ?_
    rintro ⟨flags, hflags⟩
    exact ⟨flags, congrArg (item :: ·) hflags⟩
  length := h.length
  branches := h.branches

theorem depth_sequenceOf_le (h : Unflagged p q) :
    (sequenceOf p.items).depth ≤ (sequenceOf q.items).depth := by
  rcases h.items with hitems | ⟨flags, hitems⟩
  · rw [hitems]
  · rw [hitems]
    exact depth_sequenceOf_flags_le p.items flags

theorem shallower_cons (h : Unflagged p q) :
    Shallower (sequenceOf p.items :: p.branches) (sequenceOf q.items :: q.branches) := by
  intro x hx
  rcases List.mem_cons.mp hx with rfl | hx
  · exact ⟨_, List.mem_cons_self, h.depth_sequenceOf_le⟩
  · obtain ⟨y, hy, hle⟩ := h.branches x hx
    exact ⟨y, List.mem_cons_of_mem _ hy, hle⟩

theorem branch (h : Unflagged p q) : Unflagged p.branch q.branch where
  verbose := h.verbose
  names := h.names
  items := .inl rfl
  length := congrArg Nat.succ h.length
  branches := h.shallower_cons

theorem depth_finish_le (h : Unflagged p q) : p.finish.depth ≤ q.finish.depth :=
  depth_alternativesOf_le (congrArg Nat.succ h.length) h.shallower_cons

/-- Flags cannot be repeated, so what can be repeated is the same with flags in
front and without. -/
theorem repeated? {q' : Partial} {low : Nat} {high : Option Nat} (h : Unflagged p q)
    (hlast : q.repeated? low high = some q') :
    ∃ p', p.repeated? low high = some p' ∧ Unflagged p' q' := by
  obtain ⟨item, before, hitems, hflags, rfl⟩ := Partial.repeated?_eq_some hlast
  have hrepeat : ∀ rest, p.items = item :: rest → p.repeated? low high =
      some { p with items := .repeated low high item :: rest } := by
    intro rest hrest
    rw [Partial.repeated?, hrest, repeatLast]
    · rfl
    · exact hflags
  rcases h.items with hsame | ⟨flags, hsame⟩
  · rw [hitems] at hsame
    exact ⟨_, hrepeat before hsame.symm, h.verbose, h.names, .inl rfl, h.length, h.branches⟩
  · rw [hitems] at hsame
    cases hp : p.items with
    | nil =>
      rw [hp] at hsame
      exact absurd (List.cons.inj hsame).1 (hflags flags)
    | cons first rest =>
      rw [hp] at hsame
      obtain ⟨rfl, rfl⟩ := List.cons.inj hsame
      exact ⟨_, hrepeat rest hp, h.verbose, h.names, .inr ⟨flags, rfl⟩, h.length, h.branches⟩

end Unflagged

/-- Without flags in front the same is read, and it is no deeper. -/
theorem Reads.unflagged {p q : Partial} {cs later : List Char} {names : List String} {read : Syntax}
    (h : Reads q cs names read later) (hp : Unflagged p q) :
    ∃ read', Reads p cs names read' later ∧ read'.depth ≤ read.depth := by
  induction h generalizing p with
  | stop hskip hlater =>
    rw [← hp.verbose] at hskip
    rw [← hp.names]
    exact ⟨_, .stop hskip hlater, hp.depth_finish_le⟩
  | branch hskip _ ih =>
    obtain ⟨read', hread, hdepth⟩ := ih hp.branch
    rw [← hp.verbose] at hskip
    exact ⟨read', .branch hskip hread, hdepth⟩
  | @flags q _ _ _ _ _ _ flags hskip hopening _ ih =>
    have hpush := hp.push (.flags flags)
    have hnext : Unflagged
        { p.push (.flags flags) with verbose := verboseAfter p.verbose flags }
        { q.push (.flags flags) with verbose := verboseAfter q.verbose flags } :=
      ⟨congrArg (verboseAfter · flags) hp.verbose, hpush.names, hpush.items, hpush.length,
        hpush.branches⟩
    obtain ⟨read', hread, hdepth⟩ := ih hnext
    rw [← hp.verbose] at hskip hopening
    exact ⟨read', .flags hskip hopening hread, hdepth⟩
  -- The body is read from a fresh start, so only what follows the group sees the difference.
  | @group q _ _ _ _ _ _ names₂ _ kind body _ hskip hopening hnames hbody _ _ ih =>
    have hpush := hp.push (.group kind body)
    have hnext : Unflagged { p.push (.group kind body) with names := names₂ }
        { q.push (.group kind body) with names := names₂ } :=
      ⟨hpush.verbose, rfl, hpush.items, hpush.length, hpush.branches⟩
    obtain ⟨read', hread, hdepth⟩ := ih hnext
    rw [← hp.verbose] at hskip hopening hbody
    rw [← hp.names] at hnames
    exact ⟨read', .group hskip hopening hnames hbody hread, hdepth⟩
  | item hskip hitem _ ih =>
    obtain ⟨read', hread, hdepth⟩ := ih (hp.push _)
    rw [← hp.verbose] at hskip hitem
    exact ⟨read', .item hskip hitem hread, hdepth⟩
  | repeated hskip hbounds hlast _ ih =>
    obtain ⟨p', hlast', hp'⟩ := hp.repeated? hlast
    obtain ⟨read', hread, hdepth⟩ := ih hp'
    rw [← hp.verbose] at hskip hbounds
    exact ⟨read', .repeated hskip hbounds hlast' hread, hdepth⟩

end Reader

/-- A text is a pattern exactly if the rules read all of it and it is not too
deep. -/
theorem Syntax.read?_eq_some_iff {text : String} {read : Syntax} :
    Syntax.read? text = some read ↔
      (∃ names, Reader.Reads { verbose := false, names := [] } text.toList names read []) ∧
        read.depth ≤ depthLimit := by
  constructor
  · intro h
    simp only [Syntax.read?] at h
    split at h
    next names found hpattern =>
      split_ifs at h with hdepth
      cases h
      exact ⟨⟨names, Reader.reads_of_pattern hpattern⟩, hdepth⟩
    next => cases h
  · rintro ⟨⟨names, hreads⟩, hdepth⟩
    simp only [Syntax.read?, Reader.pattern_of_reads hreads (Nat.lt_succ_self _)]
    exact if_pos hdepth

end BlockLang.Pattern
