import BlockLang.Proofs.PatternReading

/-! # What portable patterns hold

A scanner looks for what is not portable. It reads escapes as the reader of patterns does, so no
escape that is not portable gets past it. It does not know where a class begins with a closing
bracket, and it takes the brackets of a group's name for those of a class. Apart from such classes,
and unless a name leaves a bracket open, what gets past it is portable.
-/

namespace BlockLang.Pattern

open Reader

/-! ## The scanner -/

/-- The characters that stand behind a backslash. -/
def escapedChars : List Char → List Char
  | [] => []
  | '\\' :: c :: rest => c :: escapedChars rest
  | _ :: rest => escapedChars rest

variable {c : Char} {cs later rest flags : List Char} {names : List String} {read : Syntax}
  {text : String} {p : Pattern}

theorem escapedChars_cons (hc : c ≠ '\\') (rest : List Char) :
    escapedChars (c :: rest) = escapedChars rest := by
  rw [escapedChars]
  rintro d tail rfl
  exact absurd rfl hc

/-- What is taken leaves no escape that was not there before, since a backslash
is never taken apart from its character. -/
theorem escapedChars_subset {verbose : Bool} (h : Takes verbose cs later) :
    escapedChars later ⊆ escapedChars cs := by
  induction h with
  | nothing => exact List.Subset.refl _
  | char hescape _ _ ih =>
    rw [escapedChars_cons hescape]
    exact ih
  | escape _ ih => exact List.subset_cons_of_subset _ ih
  | lone => exact List.nil_subset _

/-- A character that opens nothing and closes nothing is looked at only for set
operations, and these only inside a class. -/
theorem portabilityFault?_ordinary {inClass : Bool} (hc : IsOrdinary c)
    (hgroup : c = '(' → rest.head? ≠ some '?') :
    portabilityFault? inClass (c :: rest) =
      if inClass ∧ isSetOperation c ∧ rest.head? = some c then some (.setOperation c)
      else portabilityFault? inClass rest := by
  obtain ⟨hescape, hopen, hclose⟩ := hc
  apply portabilityFault?.eq_9
  · exact fun h _ => hescape h
  · exact fun _ _ h _ => hescape h
  · exact hopen
  · exact hclose
  · rintro tail hparen rfl
    exact hgroup hparen rfl

/-- Whether characters hold nothing that is not portable. -/
abbrev Clean (inClass : Bool) (cs : List Char) : Prop := portabilityFault? inClass cs = none

namespace Clean

variable {inClass : Bool} {c : Char} {rest : List Char}

theorem escape (h : Clean inClass ('\\' :: c :: rest)) :
    isUnportableEscape c = false ∧ Clean inClass rest := by
  rw [Clean, portabilityFault?] at h
  split_ifs at h with hescape
  exact ⟨by simpa using hescape, h⟩

theorem opening (h : Clean inClass ('[' :: rest)) : inClass = false ∧ Clean true rest := by
  rw [Clean, portabilityFault?] at h
  split_ifs at h with hclass
  exact ⟨by simpa using hclass, h⟩

theorem closing (h : Clean inClass (']' :: rest)) : Clean false rest := h

theorem not_doubled (hc : isSetOperation c = true) : ¬ Clean true (c :: c :: rest) := by
  intro h
  have hordinary : IsOrdinary c := isOrdinary_of hc (by decide)
  rw [Clean, portabilityFault?_ordinary hordinary, if_pos ⟨rfl, hc, rfl⟩] at h
  · cases h
  · rintro rfl
    simp

/-- Outside a class a group with a question mark has a colon or an angle bracket
behind it. -/
theorem group (h : Clean false ('(' :: '?' :: rest)) :
    ∃ c later, rest = c :: later ∧ (c = ':' ∨ c = '<') ∧ Clean false later := by
  rw [Clean, portabilityFault?.eq_def] at h
  simp only [Bool.false_eq_true, if_false] at h
  split at h
  · exact ⟨':', _, rfl, .inl rfl, h⟩
  · split_ifs at h
    exact ⟨'<', _, rfl, .inr rfl, h⟩
  · cases h

/-- An ordinary character leaves the state as it is. -/
theorem ordinary (hc : IsOrdinary c) (h : Clean inClass (c :: rest)) : Clean inClass rest := by
  by_cases hgroup : c = '(' → rest.head? ≠ some '?'
  · rw [Clean, portabilityFault?_ordinary hc hgroup] at h
    split_ifs at h
    exact h
  · -- The scanner reads the question mark together with the parenthesis.
    have hmark : ∀ {d : Char} {tail : List Char}, d = '?' ∨ d = ':' ∨ d = '<' →
        Clean inClass tail → Clean inClass (d :: tail) := by
      intro d tail hd htail
      have hd' : IsOrdinary d ∧ d ≠ '(' ∧ isSetOperation d = false := by
        rcases hd with rfl | rfl | rfl <;> decide
      rw [Clean, portabilityFault?_ordinary hd'.1 (fun h => absurd h hd'.2.1), if_neg]
      · exact htail
      · rw [hd'.2.2]
        simp
    rw [Classical.not_imp, not_not] at hgroup
    obtain ⟨rfl, hhead⟩ := hgroup
    obtain ⟨tail, rfl⟩ := List.head?_eq_some_iff.mp hhead
    apply hmark (.inl rfl)
    cases inClass with
    | true =>
      rw [Clean, portabilityFault?.eq_def] at h
      exact h
    | false =>
      obtain ⟨d, later, rfl, hd, hlater⟩ := h.group
      exact hmark (.inr hd) hlater

/-- Some state follows each character that is not escaped. -/
theorem next (hc : c ≠ '\\') (h : Clean inClass (c :: rest)) : ∃ state, Clean state rest := by
  by_cases hordinary : IsOrdinary c
  · exact ⟨inClass, h.ordinary hordinary⟩
  · have hbracket : c = '[' ∨ c = ']' := by
      by_contra hneither
      rw [not_or] at hneither
      exact hordinary ⟨hc, hneither⟩
    rcases hbracket with rfl | rfl
    · exact ⟨true, h.opening.2⟩
    · exact ⟨false, h.closing⟩

variable {cs : List Char}

/-- The scanner agrees with a reader that takes no brackets: it is in the same
state behind what was taken. -/
theorem of_takes {later : List Char} (h : Takes false cs later) (hcs : Clean inClass cs) :
    Clean inClass later := by
  induction h with
  | nothing => exact hcs
  | char _ hordinary _ ih => exact ih (hcs.ordinary (hordinary rfl))
  | escape _ ih => exact ih hcs.escape.2
  | lone => rfl

/-- Behind a reader that takes brackets too, the scanner is in one state or the
other, and has found nothing. -/
theorem exists_of_takes {verbose : Bool} {later : List Char} (h : Takes verbose cs later)
    (hcs : Clean inClass cs) : ∃ state, Clean state later := by
  induction h generalizing inClass with
  | nothing => exact ⟨inClass, hcs⟩
  | char hescape _ _ ih =>
    obtain ⟨state, hrest⟩ := hcs.next hescape
    exact ih hrest
  | escape _ ih => exact ih hcs.escape.2
  | lone => exact ⟨false, rfl⟩

/-- No escape of a text without faults is one of those that are not portable, whether it is inside a
class or not. -/
theorem escapedChars (h : Clean inClass cs) :
    ∀ c ∈ escapedChars cs, isUnportableEscape c = false := by
  fun_induction Pattern.escapedChars cs generalizing inClass with
  | case1 => simp
  | case2 c rest ih => exact List.forall_mem_cons.mpr ⟨h.escape.1, ih h.escape.2⟩
  | case3 c rest hescape ih =>
    by_cases hc : c = '\\'
    · subst hc
      cases rest with
      | nil => simp [Pattern.escapedChars]
      | cons d rest => exact absurd rfl (hescape d rest rfl)
    · obtain ⟨state, hrest⟩ := h.next hc
      exact ih hrest

end Clean

/-! ## Classes -/

/-- Whether a member of a class is a character, a range or a class with a
letter. -/
def ClassItem.IsPlain : ClassItem → Prop
  | .char _ | .range _ _ | .shorthand _ _ => True
  | .named _ _ | .nested _ _ => False

def ClassSet.IsPlain : ClassSet → Prop
  | .union items => ∀ item ∈ items, item.IsPlain
  | .operation _ _ _ => False

/-- Whether a class begins with a closing bracket as its first member. -/
def BracketFirst (inside : List Char) : Prop :=
  inside.head? = some ']' ∨ ∃ rest, inside = '^' :: ']' :: rest

theorem isPlain_of_range {verbose : Bool} {item : ClassItem}
    (h : range verbose cs = some (item, later)) : item.IsPlain := by
  obtain ⟨first, rest, -, ⟨hitem, -⟩ | ⟨-, -, low, high, -, -, -, rfl⟩⟩ := range_cases h
  · cases first with
    | char c | byte c =>
      cases hitem
      trivial
    | shorthand kind negated =>
      cases hitem
      trivial
    | assertion kind => cases hitem
  · trivial

section

variable {cs later : List Char}

theorem Clean.member {e : Escaped} (h : member false cs = some (e, later)) (hcs : Clean true cs)
    (hclose : cs.head? ≠ some ']') : Clean true later := by
  refine hcs.of_takes (takes_member h ?_)
  rintro - c hc
  obtain ⟨rest, rfl⟩ := List.head?_eq_some_iff.mp hc
  constructor
  · rintro rfl
    exact absurd hcs.opening.1 (by decide)
  · rintro rfl
    exact hclose rfl

theorem Clean.range {item : ClassItem} (h : range false cs = some (item, later))
    (hcs : Clean true cs) (hclose : cs.head? ≠ some ']') : Clean true later := by
  obtain ⟨first, rest, hfirst, hrest⟩ := range_cases h
  have hclean := hcs.member hfirst hclose
  rcases hrest with ⟨-, rfl⟩ | ⟨tail, last, low, high, hskip, hpeek, hlast, -⟩
  · exact hclean
  · obtain rfl : rest = '-' :: tail := hskip
    exact (hclean.ordinary (by decide)).member hlast hpeek

/-- A class is plain if the scanner is inside from its first member on: a bracket would open a
class, and a doubled mark would be a set operation. -/
theorem isPlain_of_classRest {limit : Nat} {items : List ClassItem} {set : ClassSet}
    (h : classRest false limit none items cs = some (set, later)) (hcs : Clean true cs)
    (hitems : ∀ item ∈ items, item.IsPlain) : set.IsPlain := by
  induction limit generalizing items cs with
  | zero => cases h
  | succ limit ih =>
    rw [classRest] at h
    split at h
    next => cases h
    next =>
      cases h
      exact hitems
    next rest hskip =>
      obtain rfl : cs = '[' :: rest := hskip
      exact absurd hcs.opening.1 (by decide)
    next rest hskip =>
      obtain rfl : cs = '&' :: '&' :: rest := hskip
      exact absurd hcs (Clean.not_doubled (by decide))
    next rest hskip =>
      obtain rfl : cs = '-' :: '-' :: rest := hskip
      exact absurd hcs (Clean.not_doubled (by decide))
    next rest hskip =>
      obtain rfl : cs = '~' :: '~' :: rest := hskip
      exact absurd hcs (Clean.not_doubled (by decide))
    next hclose _ _ _ _ =>
      split at h
      next item last hrange =>
        have hhead : cs.head? ≠ some ']' := by
          intro hhead
          obtain ⟨rest, rfl⟩ := List.head?_eq_some_iff.mp hhead
          exact hclose rest rfl
        refine ih h (hcs.range hrange hhead) ?_
        simp only [List.forall_mem_append, List.forall_mem_singleton]
        exact ⟨hitems, isPlain_of_range hrange⟩
      next => cases h

/-- Hyphens in front of a class are plain members, and the scanner is still
inside behind them. -/
theorem isPlain_of_leading (limit : Nat) {items : List ClassItem} (hcs : Clean true cs)
    (hitems : ∀ item ∈ items, item.IsPlain) (hfirst : items ≠ [] ∨ cs.head? ≠ some ']') :
    (∀ item ∈ (leading false limit items cs).1, item.IsPlain) ∧
      Clean true (leading false limit items cs).2 := by
  induction limit generalizing items cs with
  | zero => exact ⟨hitems, hcs⟩
  | succ limit ih =>
    unfold leading
    split
    next rest =>
      apply ih
      · exact hcs.ordinary (by decide)
      · simp only [List.forall_mem_append, List.forall_mem_singleton]
        exact ⟨hitems, trivial⟩
      · exact .inl (by simp)
    next rest =>
      split_ifs with hempty
      · rw [List.isEmpty_iff] at hempty
        rcases hfirst with hne | hhead
        · exact absurd hempty hne
        · exact absurd rfl hhead
      · exact ⟨hitems, hcs⟩
    next => exact ⟨hitems, hcs⟩

/-- A class that the scanner sees open is plain, unless it begins with a closing
bracket. -/
theorem isPlain_of_bracketed {negated : Bool} {set : ClassSet}
    (h : bracketed false cs = some (.bracketed negated set, later)) (hcs : Clean true cs)
    (hfirst : ¬ BracketFirst cs) : set.IsPlain := by
  obtain ⟨⟨set, last⟩, hclass, heq⟩ := Option.map_eq_some_iff.mp h
  cases heq
  have hopening : (∀ item ∈ (opening false cs).2.1, item.IsPlain) ∧
      Clean true (opening false cs).2.2 := by
    unfold opening
    split
    next rest hskip =>
      obtain rfl : cs = '^' :: rest := hskip
      apply isPlain_of_leading
      · exact hcs.ordinary (by decide)
      · simp
      · refine .inr fun hhead => hfirst (.inr ?_)
        obtain ⟨tail, rfl⟩ := List.head?_eq_some_iff.mp hhead
        exact ⟨tail, rfl⟩
    next =>
      apply isPlain_of_leading
      · exact hcs
      · simp
      · exact .inr fun hhead => hfirst (.inl hhead)
  exact isPlain_of_classRest hclass hopening.2 hopening.1

end

/-! ## Groups -/

/-- Whether a group is one of those that both engines have. -/
def Group.IsPortable : Group → Prop
  | .captured | .named _ => True
  | .flagged flags => flags = []
  | .namedWithLetter _ => False

/-- Whether a bracket is open behind some characters, the last bracket
counting. -/
def leavesOpen (inClass : Bool) : List Char → Bool
  | [] => inClass
  | c :: rest => leavesOpen (if c = '[' then true else if c = ']' then false else inClass) rest

/-- The scanner takes the brackets of a name for those of a class, so it is
outside behind a name only if the last of these closes. -/
theorem Clean.name {inClass : Bool} {name : List Char} (hname : ∀ c ∈ name, isNamePart c = true)
    (h : Clean inClass (name ++ rest)) :
    Clean (leavesOpen inClass name) rest := by
  have hescape : isNamePart '\\' = false := isNamePart_eq_false (by decide +kernel)
  induction name generalizing inClass with
  | nil => exact h
  | cons c name ih =>
    obtain ⟨hc, hname⟩ := List.forall_mem_cons.mp hname
    rw [leavesOpen]
    apply ih hname
    split_ifs with hopen hclose
    · subst hopen
      exact h.opening.2
    · subst hclose
      exact h.closing
    · refine h.ordinary ⟨?_, hopen, hclose⟩
      rintro rfl
      rw [hescape] at hc
      cases hc

/-- Outside a class the scanner lets only portable groups pass. -/
theorem Clean.groupOpening {start : Opening} (h : groupOpening false rest = some (start, later))
    (hrest : Clean false ('(' :: rest)) :
    ∃ kind, start = .group kind ∧ kind.IsPortable ∧
      ((∀ name, kind = .named name → leavesOpen false name.toList = false) →
        Clean false later) := by
  unfold Reader.groupOpening at h
  split at h
  · cases h
  · cases h
  · cases h
  · cases h
  · next tail hskip =>
    -- A clean text has no group that is opened with a letter.
    obtain rfl : rest = '?' :: 'P' :: '<' :: tail := hskip
    obtain ⟨c, last, heq, hc, -⟩ := hrest.group
    obtain ⟨rfl, -⟩ := List.cons.inj heq
    exact absurd hc (by decide)
  · next tail _ _ hskip =>
    obtain rfl : rest = '?' :: '<' :: tail := hskip
    obtain ⟨⟨name, last⟩, hname, heq⟩ := Option.map_eq_some_iff.mp h
    cases heq
    refine ⟨_, rfl, trivial, fun hopen => ?_⟩
    obtain ⟨rfl, hchars⟩ := groupName_eq_some hname
    obtain ⟨c, last, heq, -, hlast⟩ := hrest.group
    obtain ⟨-, rfl⟩ := List.cons.inj heq
    have hclean := hlast.name hchars
    rw [hopen name rfl] at hclean
    exact hclean.ordinary (by decide)
  · next tail _ _ _ _ _ hangle hskip =>
    obtain rfl : rest = '?' :: tail := hskip
    obtain ⟨c, last, rfl, rfl | rfl, hlast⟩ := hrest.group
    · cases h
      exact ⟨_, rfl, rfl, fun _ => hlast⟩
    · exact absurd rfl (hangle last)
  · cases h
    exact ⟨_, rfl, trivial, fun _ => hrest.ordinary (by decide)⟩

/-! ## Reading portable patterns -/

/-- Whether an escape is none of those for the start and the end of the text. -/
def Syntax.IsInner : Syntax → Prop
  | .assertion kind => kind ≠ .textStart ∧ kind ≠ .textEnd
  | _ => True

theorem structural_isInner : Structural Syntax.IsInner where
  empty := trivial
  repeated _ _ _ := trivial
  sequence _ := trivial
  alternatives _ := trivial

section

variable {verbose : Bool} {cs later : List Char}

theorem isInner_of_hex {count : Nat} {e : Escaped} (h : hex verbose count cs = some (e, later)) :
    e.toSyntax.IsInner := by
  unfold hex at h
  split at h
  next => cases h
  next =>
    obtain ⟨⟨c, last⟩, -, heq⟩ := Option.map_eq_some_iff.mp h
    cases heq
    trivial
  next =>
    obtain ⟨⟨c, last⟩, -, heq⟩ := Option.map_eq_some_iff.mp h
    cases heq
    split_ifs <;> trivial

theorem isInner_of_boundary {kind : Assertion} (h : boundary verbose cs = some (kind, later)) :
    (Syntax.assertion kind).IsInner := by
  have hnamed : ∀ {name : List Char}, namedBoundary? name = some kind →
      (Syntax.assertion kind).IsInner := by
    intro name hname
    unfold namedBoundary? at hname
    split_ifs at hname <;> cases hname <;> exact ⟨by decide, by decide⟩
  unfold boundary at h
  split at h
  next rest =>
    split at h
    next => cases h
    next c inside hskip =>
      split_ifs at h
      · split at h
        next =>
          obtain ⟨_, hkind, heq⟩ := Option.map_eq_some_iff.mp h
          cases heq
          exact hnamed hkind
        next => cases h
      · cases h
        exact ⟨by decide, by decide⟩
  next =>
    cases h
    exact ⟨by decide, by decide⟩

theorem isInner_of_assertion? {c : Char} {kind : Assertion} (h : assertion? c = some kind)
    (hc : isUnportableEscape c = false) : (Syntax.assertion kind).IsInner := by
  obtain ⟨before, after, hsplit, -⟩ := List.lookup_eq_some_iff.mp h
  have hmem : (c, kind) ∈ before ++ (c, kind) :: after :=
    List.mem_append_right _ List.mem_cons_self
  rw [← hsplit] at hmem
  simp only [List.mem_cons, Prod.mk.injEq, List.not_mem_nil, or_false] at hmem
  rcases hmem with ⟨rfl, rfl⟩ | ⟨rfl, rfl⟩ | ⟨rfl, rfl⟩ | ⟨rfl, rfl⟩ | ⟨rfl, rfl⟩
  · cases hc
  · cases hc
  all_goals exact ⟨by decide, by decide⟩

/-- An escape for the start or the end of the text has a letter that is not
portable, so no accepted pattern has one. -/
theorem isInner_of_escape {c : Char} {e : Escaped}
    (h : Reader.escape verbose (c :: cs) = some (e, later)) (hc : isUnportableEscape c = false) :
    e.toSyntax.IsInner := by
  unfold Reader.escape at h
  simp only at h
  split_ifs at h
  · exact isInner_of_hex h
  · exact isInner_of_hex h
  · exact isInner_of_hex h
  · obtain ⟨⟨kind, last⟩, hkind, heq⟩ := Option.map_eq_some_iff.mp h
    cases heq
    exact isInner_of_boundary hkind
  · cases h
    trivial
  · split at h
    next =>
      cases h
      trivial
    next =>
      cases h
      trivial
    next hassertion =>
      cases h
      exact isInner_of_assertion? hassertion hc
    next => cases h

theorem isInner_of_atom {item : Syntax} (h : Atom verbose cs item later)
    (hcs : ∀ c ∈ escapedChars cs, isUnportableEscape c = false) : item.IsInner := by
  cases h with
  | bracketed h =>
    obtain ⟨negated, set, rfl⟩ := exists_of_bracketed h
    trivial
  | escape h =>
    obtain ⟨c, tail, rfl, -⟩ := exists_of_escape h
    exact isInner_of_escape h (hcs c List.mem_cons_self)
  | dot | char => trivial
  | lineStart | lineEnd => exact ⟨by decide, by decide⟩

end

/-- Where no escape is one of those that are not portable, nothing that is read
is an escape for the start or the end of the text. -/
theorem isInner_of_reads {p : Partial} (h : Reads p cs names read later) (hp : p.All Syntax.IsInner)
    (hcs : ∀ c ∈ escapedChars cs, isUnportableEscape c = false) :
    ∀ t : Syntax, t.Within read → t.IsInner := by
  -- What is escaped in the rest was escaped in the whole, so it is portable too.
  have hleft : ∀ {cs start rest : List Char} {verbose : Bool},
      (∀ c ∈ escapedChars cs, isUnportableEscape c = false) → skip verbose cs = start →
        Takes true start rest → ∀ c ∈ escapedChars rest, isUnportableEscape c = false :=
    fun hcs hskip htake c hc => hcs c (escapedChars_subset (.of_skip hskip htake) hc)
  induction h with
  | stop => exact hp.finish structural_isInner
  | branch hskip _ ih =>
    exact ih (hp.branch structural_isInner) (hleft hcs hskip (.ordinary (by decide) (.nothing _)))
  | flags hskip hopening _ ih =>
    refine ih (hp.push ?_) (hleft hcs hskip (.ordinary (by decide) (takes_groupOpening hopening)))
    rintro t ⟨⟩
    trivial
  | group hskip hopening _ hbody _ ihbody ih =>
    have hinside := hleft hcs hskip (.ordinary (by decide) (takes_groupOpening hopening))
    have hbehind := hbody.takes.trans (.ordinary (by decide) (.nothing _))
    refine ih (hp.push ?_) (fun c hc => hinside c (escapedChars_subset hbehind hc))
    intro t ht
    cases ht with
    | self => trivial
    | group ht => exact ihbody (Partial.all_start _ _) hinside t ht
  | item hskip hitem _ ih =>
    refine ih (hp.push ?_) (hleft hcs hskip hitem.takes.1)
    intro t ht
    rw [hitem.eq_of_within ht]
    exact isInner_of_atom hitem (hleft hcs hskip (.nothing _))
  | repeated hskip hbounds hlast _ ih =>
    exact ih (hp.repeated structural_isInner hlast) (hleft hcs hskip hbounds.takes.1.any)

/-- Whether a part of a pattern is one that both engines read alike. A class may
still hold what is not portable if the source has a closing bracket as its first
member. -/
def Syntax.IsPortable (source : List Char) : Syntax → Prop
  | .group kind _ => kind.IsPortable
  | .flags _ => False
  | .bracketed negated set => set.IsPlain ∨ ∃ before inside later,
      source = before ++ '[' :: inside ∧ BracketFirst inside ∧
        Reader.bracketed false inside = some (.bracketed negated set, later)
  | _ => True

theorem structural_isPortable (source : List Char) : Structural (Syntax.IsPortable source) where
  empty := trivial
  repeated _ _ _ := trivial
  sequence _ := trivial
  alternatives _ := trivial

/-- Behind an item the scanner is outside of classes again, also if the item is
a class. -/
theorem Clean.atom {item : Syntax} (h : Atom false cs item later)
    (hcs : Clean false cs) : Clean false later := by
  cases h with
  | bracketed h =>
    obtain ⟨state, hclose⟩ := hcs.opening.2.exists_of_takes (takes_bracketed h)
    exact hclose.closing
  | escape h => exact hcs.of_takes (takes_escape h)
  | dot | lineStart | lineEnd => exact hcs.ordinary (by decide)
  | @char c hc rest =>
    by_cases hclose : c = ']'
    · subst hclose
      exact hcs.closing
    · refine hcs.ordinary ⟨?_, ?_, hclose⟩ <;> rintro rfl <;> exact hc (by decide)

/-- An item that is read outside of classes is portable, or it is a class that
begins with a closing bracket. -/
theorem isPortable_of_atom {source : List Char} {item : Syntax} (h : Atom false cs item later)
    (hcs : Clean false cs) (hsource : cs <:+ source) :
    item.IsPortable source := by
  cases h with
  | @bracketed inside _ _ h =>
    obtain ⟨negated, set, rfl⟩ := exists_of_bracketed h
    by_cases hfirst : BracketFirst inside
    · obtain ⟨before, hbefore⟩ := hsource
      exact .inr ⟨before, inside, later, hbefore.symm, hfirst, h⟩
    · exact .inl (isPlain_of_bracketed h hcs.opening.2 hfirst)
  | @escape _ _ e _ => cases e <;> trivial
  | dot | lineStart | lineEnd | char => trivial

/-- As long as no name leaves a bracket open, the scanner and the reader agree
on what is outside of classes, and all that is read is portable. -/
theorem isPortable_of_reads {source : List Char} {p : Partial} (h : Reads p cs names read later)
    (hverbose : p.verbose = false) (hcs : Clean false cs) (hsource : cs <:+ source)
    (hp : p.All (Syntax.IsPortable source))
    (hnames : ∀ name body, (Syntax.group (.named name) body).Within read →
      leavesOpen false name.toList = false) :
    (∀ t : Syntax, t.Within read → t.IsPortable source) ∧ Clean false later := by
  induction h with
  | stop hskip =>
    rw [hverbose] at hskip
    obtain rfl := hskip
    exact ⟨hp.finish (structural_isPortable source), hcs⟩
  | branch hskip _ ih =>
    rw [hverbose] at hskip
    obtain rfl := hskip
    exact ih hverbose (hcs.ordinary (by decide)) ((List.suffix_cons _ _).trans hsource)
      (hp.branch (structural_isPortable source)) hnames
  | flags hskip hopening _ ih =>
    rw [hverbose] at hskip hopening
    obtain rfl := hskip
    obtain ⟨kind, hkind, -⟩ := hcs.groupOpening hopening
    cases hkind
  | @group p cs rest inside last later names₁ names₂ names kind body read hskip hopening hadd hbody
      hrest ihbody ih =>
    rw [hverbose] at hskip hopening
    obtain rfl := hskip
    obtain ⟨kind', hkind, hportable, hclean⟩ := hcs.groupOpening hopening
    cases hkind
    -- The group and its parts are parts of the whole pattern, so its names leave nothing open.
    have hwithin : ∀ t : Syntax, t.Within (.group kind body) → t.Within read :=
      fun t ht => hrest.within (Partial.holds_push ht)
    have hinside := hclean fun name hname =>
      hnames name body (hwithin _ (by rw [hname]; exact .self))
    have hverbose' : verboseInside p.verbose kind = false := by
      cases kind with
      | flagged flags =>
        rw [show flags = [] from hportable, hverbose]
        rfl
      | captured | named _ | namedWithLetter _ => exact hverbose
    have hsource' : inside <:+ source :=
      ((takes_groupOpening hopening).suffix.trans (List.suffix_cons _ _)).trans hsource
    obtain ⟨hparts, hlast⟩ := ihbody hverbose' hinside hsource' (Partial.all_start _ _)
      fun name body' hname => hnames name body' (hwithin _ (.group hname))
    refine ih hverbose (hlast.ordinary (by decide))
      (((List.suffix_cons _ _).trans hbody.takes.suffix).trans hsource') (hp.push ?_) hnames
    intro t ht
    cases ht with
    | self => exact hportable
    | group ht => exact hparts t ht
  | item hskip hitem _ ih =>
    rw [hverbose] at hskip hitem
    obtain rfl := hskip
    refine ih hverbose (hcs.atom hitem) (hitem.takes.1.suffix.trans hsource) (hp.push ?_) hnames
    intro t ht
    rw [hitem.eq_of_within ht]
    exact isPortable_of_atom hitem hcs hsource
  | repeated hskip hbounds hlast _ ih =>
    rw [hverbose] at hskip hbounds
    obtain rfl := hskip
    obtain ⟨item, before, -, -, rfl⟩ := Partial.repeated?_eq_some hlast
    exact ih hverbose (hcs.of_takes hbounds.takes.1) (hbounds.takes.1.suffix.trans hsource)
      (hp.repeated (structural_isPortable source) hlast) hnames

/-! ## Leading flags -/

/-- A pattern is its own source, or it has a group of portable flags in front of
it. -/
theorem splitFlags_cases (cs : List Char) :
    splitFlags cs = ([], cs) ∨
      ∃ flags body, cs = '(' :: '?' :: (flags ++ ')' :: body) ∧ flags ≠ [] ∧
        (∀ c ∈ flags, c ∈ portableFlags) ∧
          splitFlags cs = (portableFlags.filter flags.contains, body) := by
  unfold splitFlags
  split
  next rest =>
    split
    next flags paren body hspan =>
      split_ifs with hflags
      · rw [Bool.and_eq_true, List.all_eq_true] at hflags
        rw [List.span_eq_takeWhile_dropWhile, Prod.mk.injEq] at hspan
        have hparen : paren = ')' := by
          have hhead := List.head?_dropWhile_not (· != ')') rest
          rw [hspan.2] at hhead
          simpa using hhead
        refine .inr ⟨flags, body, ?_, by simpa using hflags.1, ?_, rfl⟩
        · rw [← hparen, ← hspan.1, ← hspan.2, List.takeWhile_append_dropWhile]
        · exact fun c hc => by simpa using hflags.2 c hc
      · exact .inl rfl
    next => exact .inl rfl
  next => exact .inl rfl

theorem exists_flag_of_portable (hc : c ∈ portableFlags) :
    ∃ flag, Flag.ofLetter? c = some flag ∧ flag ≠ .verbose := by
  simp only [portableFlags, List.mem_cons, List.not_mem_nil, or_false] at hc
  rcases hc with rfl | rfl | rfl
  · exact ⟨.ignoreCase, rfl, by decide⟩
  · exact ⟨.multiLine, rfl, by decide⟩
  · exact ⟨.dotAll, rfl, by decide⟩

/-- Portable flags are read up to the parenthesis, and none of them makes a
pattern verbose. -/
theorem flagList_portable {on : Bool} {acc found : Flags} (hflags : ∀ c ∈ flags, c ∈ portableFlags)
    (h : flagList on acc (flags ++ ')' :: rest) = some (found, later)) :
    later = ')' :: rest ∧ found.lookup .verbose = acc.lookup .verbose ∧
      acc.length + flags.length ≤ found.length := by
  induction flags generalizing acc with
  | nil =>
    cases h
    exact ⟨rfl, rfl, Nat.le_refl _⟩
  | cons c flags ih =>
    obtain ⟨hc, hflags⟩ := List.forall_mem_cons.mp hflags
    have hmark : ∀ d, d ∉ portableFlags → c ≠ d := fun d hd heq => hd (heq ▸ hc)
    obtain ⟨flag, hflag, hverbose⟩ := exists_flag_of_portable hc
    have hends : ¬ (c = ':' ∨ c = ')') := not_or.mpr ⟨hmark ':' (by decide), hmark ')' (by decide)⟩
    rw [List.cons_append, flagList.eq_def] at h
    simp only [if_neg hends, if_neg (hmark '-' (by decide)), hflag] at h
    split_ifs at h
    obtain ⟨hlater, hlookup, hlength⟩ := ih hflags h
    refine ⟨hlater, ?_, ?_⟩
    · have hother : (Flag.verbose == flag) = false := by simpa using hverbose.symm
      rw [hlookup, List.lookup_append, List.lookup_cons, hother]
      exact Option.or_none
    · rw [List.length_append, List.length_singleton] at hlength
      rw [List.length_cons]
      omega

theorem groupOpening_portable {start : Opening} (hne : flags ≠ [])
    (hflags : ∀ c ∈ flags, c ∈ portableFlags)
    (h : groupOpening false ('?' :: (flags ++ ')' :: rest)) = some (start, later)) :
    ∃ found, start = .flags found ∧ later = rest ∧ verboseAfter false found = false := by
  have hopening : groupOpening false ('?' :: (flags ++ ')' :: rest)) =
      flagOpening (flags ++ ')' :: rest) := by
    obtain ⟨c, tail, rfl⟩ := List.exists_cons_of_ne_nil hne
    have hc := hflags c List.mem_cons_self
    simp only [portableFlags, List.mem_cons, List.not_mem_nil, or_false] at hc
    rcases hc with rfl | rfl | rfl <;> rfl
  rw [hopening, flagOpening] at h
  cases hlist : flagList true [] (flags ++ ')' :: rest) with
  | none =>
    rw [hlist] at h
    cases h
  | some read =>
    obtain ⟨found, last⟩ := read
    obtain ⟨rfl, hverbose, hlength⟩ := flagList_portable hflags hlist
    have hfound : found.isEmpty = false := by
      cases found with
      | nil => simp_all
      | cons _ _ => rfl
    rw [hlist] at h
    simp only [hfound] at h
    cases h
    exact ⟨found, rfl, rfl, by rw [verboseAfter, hverbose]; rfl⟩

/-- Behind leading flags the rest is read as by itself, and comes out no
deeper. -/
theorem Reader.Reads.behind_flags {body : List Char} (hne : flags ≠ [])
    (hflags : ∀ c ∈ flags, c ∈ portableFlags)
    (h : Reads { verbose := false, names := [] } ('(' :: '?' :: (flags ++ ')' :: body)) names read
      []) :
    ∃ read', Reads { verbose := false, names := [] } body names read' [] ∧
      read'.depth ≤ read.depth := by
  cases h with
  | stop hskip | branch hskip => cases hskip
  | flags hskip hopening hrest =>
    cases hskip
    obtain ⟨found, hfound, rfl, hverbose⟩ := groupOpening_portable hne hflags hopening
    cases hfound
    apply hrest.unflagged
    exact ⟨hverbose.symm, rfl, .inr ⟨_, rfl⟩, rfl, fun x hx => absurd hx List.not_mem_nil⟩
  | group hskip hopening =>
    cases hskip
    obtain ⟨found, hfound, -⟩ := groupOpening_portable hne hflags hopening
    cases hfound
  | item hskip hitem =>
    obtain rfl := hskip
    cases hitem with
    | char hc => exact absurd (by decide) hc
  | repeated hskip hbounds =>
    obtain rfl := hskip
    cases hbounds

/-- The source of a pattern is read by itself as it is read behind the leading
flags. -/
theorem exists_read?_source (h : ofText text = .ok p) :
    ∃ read, Syntax.read? p.source = some read := by
  obtain ⟨-, hexpr, -, hsource⟩ := ofText_eq_ok_iff.mp h
  obtain ⟨read, hread, -⟩ := Option.bind_eq_some_iff.mp hexpr
  rcases splitFlags_cases text.toList with hsame | ⟨flags, body, htext, hne, hflags, hsplit⟩
  · rw [hsource, hsame, String.ofList_toList]
    exact ⟨read, hread⟩
  · rw [hsource, hsplit]
    obtain ⟨⟨names, hreads⟩, hdepth⟩ := Syntax.read?_eq_some_iff.mp hread
    rw [htext] at hreads
    obtain ⟨read', hread', hdepth'⟩ := hreads.behind_flags hne hflags
    refine ⟨read', Syntax.read?_eq_some_iff.mpr ⟨⟨names, ?_⟩, Nat.le_trans hdepth' hdepth⟩⟩
    rw [String.toList_ofList]
    exact hread'

/-- Nothing of a text is lost: it is the source, or the source with a group of
flags in front, and these are the flags that are kept. -/
theorem flags_of_ofText (h : ofText text = .ok p) : text = p.source ∧ p.flags = "" ∨
      ∃ flags, flags ≠ "" ∧ text = "(?" ++ flags ++ ")" ++ p.source ∧
        ∀ c, c ∈ flags.toList ↔ c ∈ p.flags.toList := by
  obtain ⟨-, -, hflags, hsource⟩ := ofText_eq_ok_iff.mp h
  rcases splitFlags_cases text.toList with hsame | ⟨flags, body, htext, hne, hportable, hsplit⟩
  · rw [hsame] at hflags hsource
    exact .inl ⟨by rw [hsource, String.ofList_toList], hflags⟩
  · rw [hsplit] at hflags hsource
    refine .inr ⟨String.ofList flags, ?_, ?_, ?_⟩
    · intro hempty
      exact hne (by simpa using congrArg String.toList hempty)
    · apply String.toList_inj.mp
      simp only [htext, hsource, String.toList_append, String.toList_ofList]
      simp
    · intro c
      rw [hflags, String.toList_ofList, String.toList_ofList, List.mem_filter,
        List.contains_iff_mem]
      exact ⟨fun hc => ⟨hportable c hc, hc⟩, fun hc => hc.2⟩

theorem flags_sublist (h : ofText text = .ok p) : p.flags.toList.Sublist portableFlags := by
  obtain ⟨-, -, hflags, -⟩ := ofText_eq_ok_iff.mp h
  rw [hflags, String.toList_ofList]
  rcases splitFlags_cases text.toList with hsame | ⟨flags, body, -, -, -, hsplit⟩
  · rw [hsame]
    exact List.nil_sublist _
  · rw [hsplit]
    exact List.filter_sublist

/-- The flags of an accepted pattern are at most `i`, `m` and `s`, in this
order, and with them in front its source is the text again. The source has no
escape that is not portable, it is read by itself, and it matches the start and
the end of the text in no part. If no name of a group leaves a bracket open, all
its parts are portable, except for classes that begin with a closing bracket. -/
theorem ofText_portable {text : String} {p : Pattern} (h : ofText text = .ok p) :
    p.flags.toList.Sublist ['i', 'm', 's'] ∧
    (text = p.source ∧ p.flags = "" ∨
      ∃ flags, flags ≠ "" ∧ text = "(?" ++ flags ++ ")" ++ p.source ∧
        ∀ c, c ∈ flags.toList ↔ c ∈ p.flags.toList) ∧
    (∀ c ∈ escapedChars p.source.toList, c ∉ ['A', 'z', 'p', 'P', 'Q', 'E']) ∧
    ∃ read, Syntax.read? p.source = some read ∧
      (∀ kind, (Syntax.assertion kind).Within read → kind ≠ .textStart ∧ kind ≠ .textEnd) ∧
      ((∀ name body, (Syntax.group (.named name) body).Within read →
          leavesOpen false name.toList = false) →
        ∀ t : Syntax, t.Within read → t.IsPortable p.source.toList) := by
  obtain ⟨hclean, -, -, hsource⟩ := ofText_eq_ok_iff.mp h
  have hclean : Clean false p.source.toList := by
    rw [hsource, String.toList_ofList]
    exact hclean
  obtain ⟨read, hread⟩ := exists_read?_source h
  obtain ⟨⟨names, hreads⟩, -⟩ := Syntax.read?_eq_some_iff.mp hread
  refine ⟨flags_sublist h, flags_of_ofText h, ?_, read, hread, ?_, ?_⟩
  · intro c hc hmem
    have hescape := hclean.escapedChars c hc
    rw [isUnportableEscape, List.contains_iff_mem.mpr hmem] at hescape
    cases hescape
  · exact fun kind ht => isInner_of_reads hreads (Partial.all_start _ _) hclean.escapedChars _ ht
  · intro hnames
    exact (isPortable_of_reads hreads rfl hclean List.suffix_rfl (Partial.all_start _ _) hnames).1

/-- A name that closes its brackets hides nothing, and one that does not hides a
group that is not portable. -/
theorem ofText_portable_names :
    (∃ p read, ofText "(?s)(?<n[]>x)(?:\\.)" = .ok p ∧ Syntax.read? p.source = some read ∧
      ∀ t : Syntax, t.Within read → t.IsPortable p.source.toList) ∧
    ∃ p read, ofText "(?<n[>x)(?P<m>y)" = .ok p ∧ Syntax.read? p.source = some read ∧
      ∃ t : Syntax, t.Within read ∧ ¬ t.IsPortable p.source.toList := by
  constructor
  · have hp : ofText "(?s)(?<n[]>x)(?:\\.)" = .ok ⟨"(?<n[]>x)(?:\\.)", "s", .seq .empty
        (.seq (.group (.set ⟨[(120, 120)]⟩)) (.set ⟨[(46, 46)]⟩))⟩ := by
      decide +kernel
    have hread : Syntax.read? "(?<n[]>x)(?:\\.)" = some (.sequence
        [.group (.named "n[]") (.char 'x'), .group (.flagged []) (.char '.')]) := rfl
    obtain ⟨-, -, -, read, hsource, -, hportable⟩ := ofText_portable hp
    refine ⟨_, read, hp, hsource, hportable ?_⟩
    obtain rfl := Option.some.inj (hsource.symm.trans hread)
    intro name body ht
    cases ht with
    | sequence hmem ht =>
      simp only [List.mem_cons, List.not_mem_nil, or_false] at hmem
      rcases hmem with rfl | rfl
      · cases ht with
        | self => decide +kernel
        | group ht => cases ht
      · cases ht with
        | group ht => cases ht
  · have hp : ofText "(?<n[>x)(?P<m>y)" = .ok ⟨"(?<n[>x)(?P<m>y)", "",
        .seq (.group (.set ⟨[(120, 120)]⟩)) (.group (.set ⟨[(121, 121)]⟩))⟩ := by
      decide +kernel
    have hread : Syntax.read? "(?<n[>x)(?P<m>y)" = some (.sequence
        [.group (.named "n[") (.char 'x'), .group (.namedWithLetter "m") (.char 'y')]) := rfl
    refine ⟨_, _, hp, hread, .group (.namedWithLetter "m") (.char 'y'), ?_, fun h => h⟩
    exact .sequence (List.mem_cons_of_mem _ List.mem_cons_self) .self

/-- A class whose first member is a closing bracket is taken to end there. -/
example : portabilityFault? false "[][:alpha:]]".toList = none ∧
    Syntax.read? "[][:alpha:]]" =
      some (.bracketed false (.union [.char ']', .named .alpha false])) :=
  ⟨by decide +kernel, rfl⟩

end BlockLang.Pattern
