import BlockLang.Proofs.Passages
import BlockLang.Server

/-! # Generated code leads from code to code

Every piece of generated code, and with them all pieces together, leaves the search for the end
of a block in code, whatever texts the pieces quote.
-/

namespace BlockLang

namespace Code

open Text

/-- Pieces that are laid out behind others begin at the depth at which those
end. -/
theorem renderFrom_append (depth : Nat) (ps qs : List Piece) :
    renderFrom depth (ps ++ qs) =
      renderFrom depth ps ++ renderFrom (ps.foldl Piece.depthAfter depth) qs := by
  induction ps generalizing depth with
  | nil => rfl
  | cons p rest ih => simp only [List.cons_append, renderFrom, ih, List.foldl_cons]

/-- Whether pieces lead from code to code, at whatever depth they are laid
out. -/
def Covers (m n : Nat) (pieces : List Piece) : Prop :=
  ∀ depth, Passes m n (String.join (renderFrom depth pieces))

variable {m n k : Nat} {text : String} {ps qs : List Piece}

theorem covers_nil (m : Nat) : Covers m m [] := fun _ => passes_empty m

/-- Pieces are put together like texts: the blocks that the first leave open are
those in which the second begin. -/
theorem Covers.append (hp : Covers m n ps) (hq : Covers n k qs) : Covers m k (ps ++ qs) := by
  intro depth
  rw [renderFrom_append, String.join_append]
  exact (hp depth).append (hq _)

/-- Pieces that stand anywhere. -/
theorem Covers.at (h : Covers 0 0 ps) (m : Nat) : Covers m m ps := by
  intro depth
  simpa using (h depth).frame m

theorem passes_indentation (depth m : Nat) : Passes m m (indentation depth) := by
  refine passes_ofList ?_ m
  intro c hc
  rw [List.eq_of_mem_replicate hc]
  decide

theorem passes_newline (m : Nat) : Passes m m "\n" := rfl

theorem passes_lineAt (h : Passes m n text) (depth : Nat) : Passes m n (lineAt depth text) := by
  unfold lineAt
  split
  next hempty =>
    rw [String.isEmpty_iff.mp hempty] at h
    obtain rfl : m = n := by simpa [Passes, Body.State.walk, bytes] using h
    exact passes_newline m
  next => exact ((passes_indentation depth m).append h).append (passes_newline n)

/-- A single piece leads from code to code if its text does, moved in as far as
it may be. -/
theorem covers_singleton {p : Piece} (h : ∀ depth, Passes m n (p.render depth)) :
    Covers m n [p] := by
  intro depth
  simp only [renderFrom, String.join_cons, String.join_nil, String.append_empty]
  exact h depth

theorem covers_cons {p : Piece} (hp : Covers m n [p]) (hps : Covers n k ps) :
    Covers m k (p :: ps) :=
  hp.append hps

theorem covers_line (h : Passes m n text) : Covers m n [.line text] :=
  covers_singleton (passes_lineAt h)

theorem covers_opening (h : Passes m n text) : Covers m n [.opening text] :=
  covers_singleton (passes_lineAt h)

theorem covers_closing (h : Passes m n text) : Covers m n [.closing text] :=
  covers_singleton fun depth => passes_lineAt h (depth - 1)

theorem covers_reopening (h : Passes m n text) : Covers m n [.reopening text] :=
  covers_singleton fun depth => passes_lineAt h (depth - 1)

theorem covers_blank (m : Nat) : Covers m m [.blank] := covers_singleton fun _ => passes_newline m

/-- A text that is copied as it is gets its last line ended, and nothing else is
done to it. -/
theorem covers_verbatim (h : Passes m n (ended text)) : Covers m n [.verbatim text] :=
  covers_singleton fun _ => h

/-- A comment is harmless as long as it has no newline: whatever else it holds,
it ends with its line. -/
theorem covers_comment (h : ∀ b ∈ bytes text, b ≠ '\n'.toUInt8) (m : Nat) :
    Covers m m [.line ("//" ++ text)] := by
  refine covers_singleton fun depth => ?_
  have hrender : (Piece.line ("//" ++ text)).render depth =
      indentation depth ++ ("//" ++ text ++ "\n") := by
    simp [Piece.render, lineAt, String.append_assoc]
  rw [hrender]
  exact (passes_indentation depth m).append (passes_comment h m)

theorem covers_flatMap {α : Type} {as : List α} {f : α → List Piece}
    (h : ∀ a ∈ as, Covers m m (f a)) : Covers m m (as.flatMap f) := by
  induction as with
  | nil => exact covers_nil m
  | cons a rest ih =>
      obtain ⟨ha, hrest⟩ := List.forall_mem_cons.mp h
      rw [List.flatMap_cons]
      exact ha.append (ih hrest)

theorem covers_map {α : Type} {as : List α} {f : α → Piece} (h : ∀ a ∈ as, Covers m m [f a]) :
    Covers m m (as.map f) := by
  rw [List.map_eq_flatMap]
  exact covers_flatMap h

/-- A block between two lines, of which the first may open a block and the
second close it. -/
theorem covers_block {before behind : String} (hbefore : Passes m n before) (hps : Covers n n ps)
    (hbehind : Passes n k behind) : Covers m k (block before ps behind) :=
  ((covers_opening hbefore).append hps).append (covers_closing hbehind)

/-- Whether code is one block behind a given line, with code inside that leads
from code to code. -/
inductive Frames : List Piece → String → Prop where
  | block {ps : List Piece} {before behind : String} (opens : Passes 0 1 before)
      (inside : Covers 0 0 ps) (closes : Passes 1 0 behind)
      (single : (bytes behind).all (· != '\n'.toUInt8) = true) :
      Frames (block before ps behind) before

theorem Frames.covers (h : Frames ps text) : Covers 0 0 ps := by
  cases h with
  | block opens inside closes single => exact covers_block opens (inside.at 1) closes

/-! ## Levels -/

def Level (ps : List Piece) : Prop := ∀ depth, ps.foldl Piece.depthAfter depth = depth

theorem Level.append (hp : Level ps) (hq : Level qs) : Level (ps ++ qs) := by
  intro depth
  rw [List.foldl_append, hp depth, hq depth]

theorem level_flatMap {α : Type} {as : List α} {f : α → List Piece} (h : ∀ a ∈ as, Level (f a)) :
    Level (as.flatMap f) := by
  induction as with
  | nil => exact fun _ => rfl
  | cons a rest ih =>
      obtain ⟨ha, hrest⟩ := List.forall_mem_cons.mp h
      exact ha.append (ih hrest)

theorem level_lines {α : Type} (as : List α) (text : α → String) :
    Level (as.map fun a => .line (text a)) := by
  rw [List.map_eq_flatMap]
  exact level_flatMap fun _ _ _ => rfl

theorem level_block {before behind : String} (h : Level ps) : Level (block before ps behind) := by
  intro depth
  rw [block, List.cons_append, List.foldl_cons, List.foldl_append, h]
  rfl

/-- Behind code that leaves no block open, more code is laid out as if it stood
alone. -/
theorem render_append (h : Level ps) : render (ps ++ qs) = render ps ++ render qs := by
  rw [render, renderFrom_append, h 0, String.join_append]
  rfl

end Code

end BlockLang
