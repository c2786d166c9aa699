import BlockLang.Proofs.Passages
import BlockLang.Proofs.Runs

/-! # What is known of a tree that was read

A tree that was read from a source takes its names from words. The body of an action of it has no
blanks at its ends, and read on its own it leads back to where it began, once the line that it ends
in is closed.
-/

namespace BlockLang

open Text

/-! ## Tokens -/

namespace Scan

theorem isWord_ofBytes {bs : List UInt8} (h : ∀ b ∈ bs, isWordPart b = true) :
    IsWord (Text.ofBytes bs) := by
  intro b hb
  cases hbs : Text.ofBytes? bs with
  | none =>
      simp only [Text.ofBytes, hbs, Option.getD_none] at hb
      cases hb
  | some s =>
      simp only [Text.ofBytes, hbs, Option.getD_some] at hb
      rw [bytes_of_ofBytes? hbs] at hb
      exact h b hb

theorem isWordPart_of_isWordStart {b : UInt8} (h : isWordStart b = true) : isWordPart b = true := by
  simp [isWordPart, h]

/-- A chunk that is a word takes all the parts of words that follow, and is
nothing but these. -/
theorem eq_ofBytes_of_read {b : UInt8} {rest : List UInt8} {kind : Token.Kind} {text : String}
    (h : (Chunk.read b rest).token = some (kind, text)) (hkind : kind.isWord = true) :
    isWordStart b = true ∧ text = Text.ofBytes (b :: rest.takeWhile isWordPart) := by
  simp only [Chunk.read] at h
  split_ifs at h with _ _ _ _ _ hstart
  · cases h
  · cases h
  · obtain ⟨rfl, rfl⟩ := Prod.mk.inj (Option.some.inj h)
    cases hkind
  · obtain ⟨rfl, rfl⟩ := Prod.mk.inj (Option.some.inj h)
    split_ifs at hkind <;> cases hkind
  · obtain ⟨rfl, rfl⟩ := Prod.mk.inj (Option.some.inj h)
    cases hkind
  · obtain ⟨rfl, rfl⟩ := Prod.mk.inj (Option.some.inj h)
    have htake : rest.take (rest.takeWhile isWordPart).length = rest.takeWhile isWordPart :=
      (List.prefix_iff_eq_take.mp (List.takeWhile_prefix isWordPart)).symm
    rw [htake]
    exact ⟨hstart, rfl⟩
  · split at h
    · obtain ⟨rfl, rfl⟩ := Prod.mk.inj (Option.some.inj h)
      cases hkind
    · cases h

theorem exists_read_of_mem {p : Position} {skip : Nat} {bs : List UInt8} {t : Token}
    (h : t ∈ tokensFrom p skip bs) :
    ∃ b rest, (Chunk.read b rest).token = some (t.kind, t.text) := by
  induction bs generalizing p skip with
  | nil => cases h
  | cons b rest ih =>
      cases skip with
      | succ left => exact ih h
      | zero =>
          simp only [tokensFrom] at h
          split at h
          next kind text htoken =>
            rcases List.mem_cons.mp h with rfl | hlater
            · exact ⟨b, rest, htoken⟩
            · exact ih hlater
          next => exact ih h

/-- The text of a token that is a word consists of parts of words. -/
theorem sound_of_mem {p : Position} {skip : Nat} {bs : List UInt8} {t : Token}
    (h : t ∈ tokensFrom p skip bs) : t.Sound := by
  intro hkind
  obtain ⟨b, rest, hread⟩ := exists_read_of_mem h
  obtain ⟨hstart, htext⟩ := eq_ofBytes_of_read hread hkind
  rw [htext]
  apply isWord_ofBytes
  exact List.forall_mem_cons.mpr
    ⟨isWordPart_of_isWordStart hstart, fun _ hmem => List.mem_takeWhile_imp hmem⟩

end Scan

/-! ## Bodies -/

/-- Whether the body of an action has no blanks at its ends, and can be written
between braces. -/
structure Action.Enclosed (a : Action) : Prop where
  trimmed : trim a.body = a.body
  passes : Passes 0 0 (Code.ended a.body)

/-- What was found between braces can be written between braces again, and
blanks at its ends are gone. -/
theorem Action.enclosed_of_extract {source : List UInt8} {offset closeOffset : Nat} {a : Action}
    (h : Block.extract source offset = .ok ⟨a.body, closeOffset⟩) : a.Enclosed := by
  obtain ⟨inside, rest, -, hwhole, hblock⟩ := Block.extract_eq_ok_iff.mp h
  obtain ⟨hbody, -⟩ := Block.mk.inj hblock
  rw [Text.ofBytes] at hbody
  cases hinside : Text.ofBytes? inside with
  | none =>
      -- Bytes that are no text are taken for the empty text.
      have hempty : a.body = "" := by rw [hbody, hinside]; rfl
      constructor <;> rw [hempty] <;> rfl
  | some s =>
      rw [hinside, Option.getD_some] at hbody
      rw [← bytes_of_ofBytes? hinside] at hwhole
      constructor <;> rw [hbody]
      · exact trim_trim s
      · exact passes_ended_trim hwhole

/-! ## Names -/

namespace Grammar

variable {α : Type} {phrase : Phrase α} {P : α → Prop} {ts : List Token} {as : List α}

theorem Many.forall (h : Many phrase ts as) (hsound : ∀ t ∈ ts, t.Sound)
    (hitem : ∀ {us a}, phrase us a → (∀ t ∈ us, t.Sound) → P a) : ∀ a ∈ as, P a := by
  induction h with
  | nil => simp
  | cons hphrase _ ih =>
      obtain ⟨hfirst, hmore⟩ := List.forall_mem_append.mp hsound
      exact List.forall_mem_cons.mpr ⟨hitem hphrase hfirst, ih hmore⟩

/-- What holds of items that are made of sound tokens holds of every item of a
list of sound tokens. -/
theorem Listed.forall (h : Listed phrase ts as) (hsound : ∀ t ∈ ts, t.Sound)
    (hitem : ∀ {us a}, phrase us a → (∀ t ∈ us, t.Sound) → P a) : ∀ a ∈ as, P a := by
  induction h with
  | close => simp
  | cons _ hphrase _ ih =>
      simp only [List.forall_mem_append] at hsound
      exact List.forall_mem_cons.mpr ⟨hitem hphrase hsound.2.1, ih hsound.2.2⟩

theorem IsField.wellNamed {f : Field} (h : IsField ts f) (hsound : ∀ t ∈ ts, t.Sound) :
    f.WellNamed := by
  cases h with
  | field hname _ htypeName _ _ =>
      exact ⟨hsound _ (by simp) hname, hsound _ (by simp) htypeName⟩

theorem IsStep.wellNamed {s : Step} (h : IsStep ts s) (hsound : ∀ t ∈ ts, t.Sound) :
    s.WellNamed := by
  cases h with
  | auth => trivial
  | action hword _ => exact hsound _ (by simp) hword
  | validate _ _ _ hschema _ => exact hsound _ (by simp) hschema

theorem IsLaterStep.wellNamed {bracketed : Bool} {s : Step} (h : IsLaterStep bracketed ts s)
    (hsound : ∀ t ∈ ts, t.Sound) : s.WellNamed := by
  obtain ⟨-, hstep, -⟩ := h
  exact hstep.wellNamed (List.forall_mem_cons.mp hsound).2

theorem IsRoute.wellNamed {r : Route} (h : IsRoute ts r) (hsound : ∀ t ∈ ts, t.Sound) :
    r.WellNamed := by
  obtain ⟨-, -, -, hpipeline⟩ := h
  cases hpipeline with
  | plain hfirst hmore =>
      simp only [List.forall_mem_cons, List.forall_mem_append] at hsound
      exact List.forall_mem_cons.mpr ⟨hfirst.wellNamed hsound.2.2.2.1,
        hmore.forall hsound.2.2.2.2 IsLaterStep.wellNamed⟩
  | bracketed _ hfirst hmore _ _ =>
      simp only [List.cons_append, List.forall_mem_cons, List.forall_mem_append] at hsound
      exact List.forall_mem_cons.mpr ⟨hfirst.wellNamed hsound.2.2.2.2.1.1,
        hmore.forall hsound.2.2.2.2.1.2 IsLaterStep.wellNamed⟩

/-- A block of sound tokens declares names that are words. -/
theorem IsBlock.wellNamed {tree : Tree} (h : IsBlock ts tree) (hsound : ∀ t ∈ ts, t.Sound) :
    tree.WellNamed := by
  cases h with
  | data _ hname _ hfields =>
      simp only [List.forall_mem_cons] at hsound
      refine ⟨?_, by simp, by simp⟩
      simp only [List.forall_mem_singleton]
      exact ⟨hsound.2.1 hname, hfields.forall hsound.2.2.2 IsField.wellNamed⟩
  | route _ _ _ hroutes =>
      simp only [List.forall_mem_cons, List.forall_mem_append] at hsound
      exact ⟨by simp, by simp, hroutes.forall hsound.2.2.2 IsRoute.wellNamed⟩
  | migration | importing => exact ⟨by simp, by simp, by simp⟩

end Grammar

/-! ## Trees -/

/-- What is known of a tree that was read: names are words and bodies are
enclosed. -/
structure Tree.WellRead (t : Tree) : Prop where
  named : t.WellNamed
  enclosed : ∀ a ∈ t.actions, a.Enclosed

namespace Parser

variable {source : List UInt8}

/-- One block declares names that are words and bodies that are enclosed. -/
theorem block_wellRead {m : Nat} {t : Token} {items : List Token} {tree : Tree} {later : Tokens}
    (hitems : (Tokens.behind source m).items = t :: items)
    (h : block source t ⟨items, (Tokens.behind source m).stop⟩ = .ok (tree, later)) :
    tree.WellRead := by
  have hsound : ∀ u ∈ t :: items, u.Sound := by
    intro u hu
    rw [← hitems] at hu
    exact Scan.sound_of_mem hu
  rcases block_cases h with ⟨used, rfl, hblock⟩ | ⟨hkind, -⟩ | rfl
  · rw [← List.cons_append] at hsound
    have hnone : tree.actions = [] := by cases hblock <;> rfl
    exact ⟨hblock.wellNamed (List.forall_mem_append.mp hsound).1, by simp [hnone]⟩
  · obtain ⟨a, used, brace, rest, c, rfl, -, huses⟩ := action_uses hkind h
    rw [huses.split, ← List.cons_append] at hsound
    have hnamed := huses.sound fun u hu => hsound u (by simp [hu])
    exact ⟨⟨by simp [ofAction], by simpa [ofAction] using hnamed, by simp [ofAction]⟩,
      by simpa [ofAction] using Action.enclosed_of_extract huses.extract⟩
  · exact ⟨Tree.WellNamed.empty, by simp⟩

/-- What is known of each block of a run is known of the tree that they make
together. -/
theorem Reads.wellRead {m : Nat} {tree : Tree} {last : Tokens}
    (h : Reads source (Tokens.behind source m) tree last) : tree.WellRead := by
  refine h.forall_blocks ⟨Tree.WellNamed.empty, by simp⟩ ?_ block_wellRead
  intro t u ht hu
  exact ⟨ht.named.append hu.named, List.forall_mem_append.mpr ⟨ht.enclosed, hu.enclosed⟩⟩

theorem wellRead_of_ofSource {source : String} {tree : Tree}
    (h : Tree.ofSource source = .ok tree) : tree.WellRead := by
  obtain ⟨last, hreads, -⟩ := ofBytes_eq_ok_iff.mp h
  rw [← Tokens.behind_zero] at hreads
  exact hreads.wellRead

end Parser

end BlockLang
