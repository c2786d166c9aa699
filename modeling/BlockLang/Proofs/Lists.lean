import BlockLang.Outcomes
import Mathlib.Data.List.DropRight
import Mathlib.Data.List.Forall2

/-! # Lists

Facts about lists that hold of elements of any kind: bytes, characters, tokens and the lines of a
text alike. The first part is about lists alone; the second is about running over a list with a step
that can fail, where the outcome says what each step gave.
-/

namespace List

section Elements

variable {α : Type} {a b : α} {as : List α}

theorem ne_of_all_bne [BEq α] [LawfulBEq α] (h : as.all (· != a) = true) : ∀ b ∈ as, b ≠ a :=
  fun b hb => bne_iff_ne.mp (List.all_eq_true.mp h b hb)

/-- An element that is not taken ends what is taken, so that nothing behind it
matters. -/
theorem takeWhile_append_stop {p : α → Bool} (h : p a = false) (front back : List α) :
    (front ++ a :: back).takeWhile p = front.takeWhile p := by
  induction front with
  | nil => simp [h]
  | cons b front ih => simp only [List.cons_append, List.takeWhile_cons, ih]

theorem length_le_takeWhile {p : α → Bool} (h : ∀ a ∈ as, p a = true) (back : List α) :
    as.length ≤ ((as ++ back).takeWhile p).length := by
  rw [List.takeWhile_append_of_pos h, List.length_append]
  exact Nat.le_add_right _ _

/-- A word that does not have the element at which a list goes on is read before
it or not at all. -/
theorem isPrefixOf_append_stop [BEq α] [LawfulBEq α] {word front : List α} (h : a ∉ word)
    (back : List α) : word.isPrefixOf (front ++ a :: back) = word.isPrefixOf front := by
  induction word generalizing front with
  | nil => simp
  | cons b word ih =>
      simp only [List.mem_cons, not_or] at h
      cases front with
      | nil => simp [List.isPrefixOf, Ne.symm h.1]
      | cons c front => simp only [List.cons_append, List.isPrefixOf, ih h.2]

theorem rtakeWhile_ne [DecidableEq α] {front back : List α} (h : a ∉ back) :
    (front ++ a :: back).rtakeWhile (· ≠ a) = back := by
  have hback : ∀ b ∈ back.reverse, decide (b ≠ a) = true := by
    intro b hb
    exact decide_eq_true fun heq => h (heq ▸ List.mem_reverse.mp hb)
  rw [List.rtakeWhile, List.reverse_append, List.reverse_cons, List.append_assoc,
    List.takeWhile_append_of_pos hback]
  simp

/-- What stands behind a place does not see what is put in before it. -/
theorem drop_insert (front more back : List α) :
    (front ++ back).drop front.length =
      (front ++ (more ++ back)).drop (front.length + more.length) := by
  rw [List.drop_left, ← List.append_assoc, ← List.length_append, List.drop_left]

theorem not_mem_intercalate {groups : List (List α)} (hab : a ≠ b) (h : ∀ g ∈ groups, a ∉ g) :
    a ∉ [b].intercalate groups := by
  induction groups with
  | nil => simp
  | cons first rest ih =>
      obtain ⟨hfirst, hrest⟩ := List.forall_mem_cons.mp h
      cases rest with
      | nil => simpa using hfirst
      | cons second rest =>
          rw [List.intercalate_cons_cons]
          simp [hfirst, hab, ih hrest]

theorem intercalate_cons_eq (sep : α) (first : List α) (groups : List (List α)) :
    [sep].intercalate (first :: groups) = first ++ groups.flatMap (sep :: ·) := by
  induction groups generalizing first with
  | nil => simp
  | cons g rest ih =>
      rw [List.intercalate_cons_cons, ih g, List.flatMap_cons]
      simp

/-- Groups that each start with a separator are told apart by it. -/
theorem splitOn_flatMap_cons [DecidableEq α] {sep : α} {groups : List (List α)}
    (h : ∀ g ∈ groups, sep ∉ g) : (groups.flatMap (sep :: ·)).splitOn sep = [] :: groups := by
  rw [← List.nil_append (groups.flatMap _), ← intercalate_cons_eq]
  exact List.splitOn_intercalate _ (by simpa using h) (by simp)

theorem filter_filter_not_mem [DecidableEq α] (as first second : List α) :
    (as.filter (· ∉ first)).filter (· ∉ second) = as.filter (· ∉ first ++ second) := by
  rw [List.filter_filter]
  refine congrArg (List.filter · as) (funext fun a => ?_)
  rw [← Bool.decide_and, decide_eq_decide, List.mem_append, not_or, and_comm]

section

variable [BEq α] [LawfulBEq α]

theorem eraseDups_append_of_subset {more : List α} (h : ∀ b ∈ more, b ∈ as) :
    (as ++ more).eraseDups = as.eraseDups := by
  have hnone : more.removeAll as = [] := by
    apply List.filter_eq_nil_iff.mpr
    intro b hb
    simp [h b hb]
  rw [List.eraseDups_append, hnone, List.eraseDups_nil, List.append_nil]

theorem eraseDups_concat (h : a ∉ as) : (as ++ [a]).eraseDups = as.eraseDups ++ [a] := by
  have hone : [a].removeAll as = [a] := List.filter_eq_self.mpr (by simpa using h)
  rw [List.eraseDups_append, hone]
  rfl

end

end Elements

/-! ## Steps that can fail -/

section Steps

variable {ε α β : Type}

/-- A list that is computed element by element is so related to what it is
computed from. -/
theorem forall₂_of_mapM {f : α → Except ε β} {as : List α} {bs : List β}
    (h : as.mapM f = .ok bs) : List.Forall₂ (fun a b => f a = .ok b) as bs := by
  induction as generalizing bs with
  | nil =>
      obtain rfl := Except.ok.inj h
      exact .nil
  | cons a rest ih =>
      simp only [List.mapM_cons, Except.bind_eq_ok_iff] at h
      obtain ⟨b, hb, more, hmore, h⟩ := h
      obtain rfl := Except.ok.inj h
      exact .cons hb (ih hmore)

theorem exists_of_mem_mapM {f : α → Except ε β} {as : List α} {bs : List β}
    (h : as.mapM f = .ok bs) {b : β} (hb : b ∈ bs) : ∃ a ∈ as, f a = .ok b := by
  have hall := forall₂_of_mapM h
  clear h
  induction hall with
  | nil => cases hb
  | cons hfirst _ ih =>
      rcases List.mem_cons.mp hb with rfl | hmem
      · exact ⟨_, List.mem_cons_self, hfirst⟩
      · obtain ⟨a, ha, hf⟩ := ih hmem
        exact ⟨a, List.mem_cons_of_mem _ ha, hf⟩

/-- Steps that can fail but give nothing else than `g` does give what `g` gives
everywhere, if none of them fails. -/
theorem eq_map_of_mapM {f : α → Except ε β} {g : α → β} {as : List α} {bs : List β}
    (h : as.mapM f = .ok bs) (hg : ∀ a b, f a = .ok b → b = g a) : bs = as.map g := by
  have hall : List.Forall₂ (fun a b => g a = b) as bs :=
    (forall₂_of_mapM h).imp fun a b hb => (hg a b hb).symm
  rw [← List.forall₂_map_left_iff, List.forall₂_eq_eq_eq] at hall
  exact hall.symm

theorem mapM_eq_some {f : α → Option β} {g : α → β} {as : List α}
    (h : ∀ a ∈ as, f a = some (g a)) : as.mapM f = some (as.map g) := by
  induction as with
  | nil => rfl
  | cons a rest ih =>
      obtain ⟨ha, hrest⟩ := List.forall_mem_cons.mp h
      rw [List.mapM_cons, ha, ih hrest]
      rfl

/-- Where the error of a fold comes from: some step, from whatever state it had
been reached in. -/
theorem exists_of_foldlM_error {f : β → α → Except ε β} {as : List α} {b : β} {e : ε}
    (h : as.foldlM f b = .error e) : ∃ a ∈ as, ∃ b', f b' a = .error e := by
  induction as generalizing b with
  | nil => cases h
  | cons a rest ih =>
      rw [List.foldlM_cons] at h
      rcases Except.bind_eq_error_iff.mp h with hfirst | ⟨b', -, hrest⟩
      · exact ⟨a, List.mem_cons_self, b, hfirst⟩
      · obtain ⟨a', ha', hf⟩ := ih hrest
        exact ⟨a', List.mem_cons_of_mem a ha', hf⟩

/-- What each step of a fold keeps, and what it adds, stands at the end of the
fold. Here `P` is what all steps keep, and `Q a` is what the step at `a` adds
and no later one takes away. -/
theorem foldlM_ok {f : β → α → Except ε β} {P : β → Prop} {Q : α → β → Prop} {as : List α}
    {b b' : β} (h : as.foldlM f b = .ok b') (hb : P b)
    (hstep : ∀ a ∈ as, ∀ b b', P b → f b a = .ok b' →
      P b' ∧ Q a b' ∧ ∀ a', Q a' b → Q a' b') :
    P b' ∧ (∀ a ∈ as, Q a b') ∧ ∀ a, Q a b → Q a b' := by
  induction as generalizing b with
  | nil =>
      obtain rfl := Except.ok.inj h
      exact ⟨hb, by simp, fun _ hQ => hQ⟩
  | cons a rest ih =>
      rw [List.foldlM_cons, Except.bind_eq_ok_iff] at h
      obtain ⟨mid, hfirst, hrest⟩ := h
      obtain ⟨hstep, hlater⟩ := List.forall_mem_cons.mp hstep
      obtain ⟨hmid, hQ, hkeep⟩ := hstep b mid hb hfirst
      obtain ⟨hP, hall, hkeep'⟩ := ih hrest hmid hlater
      exact ⟨hP, List.forall_mem_cons.mpr ⟨hkeep' a hQ, hall⟩,
        fun a' hQ' => hkeep' a' (hkeep a' hQ')⟩

/-- A fold that succeeds succeeds alike with other steps, if these go wherever
the first ones do. -/
theorem foldlM_of_steps {f g : β → α → Except ε β} {as : List α} {b b' : β}
    (h : as.foldlM f b = .ok b')
    (hsteps : ∀ a ∈ as, ∀ b b', f b a = .ok b' → g b a = .ok b') : as.foldlM g b = .ok b' := by
  induction as generalizing b with
  | nil => exact h
  | cons a rest ih =>
      obtain ⟨ha, hrest⟩ := List.forall_mem_cons.mp hsteps
      rw [List.foldlM_cons] at h ⊢
      obtain ⟨next, hnext, h⟩ := Except.bind_eq_ok_iff.mp h
      exact Except.bind_eq_ok_iff.mpr ⟨next, ha b next hnext, ih h hrest⟩

end Steps

end List

namespace Option

theorem eq_some_iff_of_mapM {ε α β : Type} {read : α → Except ε β} {a? : Option α} {b? : Option β}
    (h : a?.mapM read = .ok b?) (b : β) : b? = some b ↔ ∃ a, a? = some a ∧ read a = .ok b := by
  cases a? with
  | none =>
      obtain rfl := Except.ok.inj h
      simp
  | some a =>
      obtain ⟨b', hb', h⟩ := Except.bind_eq_ok_iff.mp h
      obtain rfl := Except.ok.inj h
      simp [hb']

end Option
