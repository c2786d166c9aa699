import BlockLang.Proofs.AbsolutePositions

/-! # Tokenizing again from a token

What the scanner knows at the first byte of a token are the three numbers of the token's position,
so scanning again from there gives this token and all behind it. This holds wherever the scanner
was started and whatever comments, newlines and broken strings it has passed, and also at the end
of the source.
-/

namespace BlockLang

namespace Position

def Fits (p : Position) : Prop := 1 ≤ p.column ∧ p.column ≤ p.offset + 1

theorem Fits.next {p : Position} (h : p.Fits) (b : UInt8) : (p.next b).Fits := by
  obtain ⟨hpos, hle⟩ := h
  unfold Position.next
  split
  · exact ⟨Nat.le_refl 1, by simp only; omega⟩
  · exact ⟨by simp only; omega, by simp only; omega⟩

theorem Fits.advance {p : Position} (h : p.Fits) (bs : List UInt8) : (p.advance bs).Fits := by
  induction bs generalizing p with
  | nil => exact h
  | cons b rest ih =>
      rw [advance_cons]
      exact ih (h.next b)

end Position

namespace Tokens

variable {source : List UInt8}

/-- Where the tokens begin, and behind them where the source ends. -/
def starts (ts : Tokens) : List Position := ts.items.map Token.position ++ [ts.stop]

def drop (ts : Tokens) (n : Nat) : Tokens := ⟨ts.items.drop n, ts.stop⟩

theorem length_starts (ts : Tokens) : ts.starts.length = ts.items.length + 1 := by
  simp [starts]

/-- Every start is reached by reading some of the bytes, and scanning the others
from there gives the tokens that begin at this start or behind it. -/
theorem scan_start {base p : Position} {bs : List UInt8} {i : Nat}
    (h : (scan base bs).starts[i]? = some p) :
    ∃ size, size ≤ bs.length ∧ p = base.advance (bs.take size) ∧
      scan p (bs.drop size) = (scan base bs).drop i := by
  have hi : i < (scan base bs).starts.length := (List.getElem?_eq_some_iff.mp h).1
  rw [length_starts] at hi
  rcases Nat.lt_succ_iff_lt_or_eq.mp hi with hitem | hend
  · have hitems := List.drop_eq_getElem_cons hitem
    have hp : (scan base bs).items[i].position = p := by
      simpa [starts, List.getElem?_append_left, hitem] using h
    generalize (scan base bs).items[i] = t at hitems hp
    have hsplit : Scan.tokensFrom base 0 bs =
        (scan base bs).items.take i ++ t :: (scan base bs).items.drop (i + 1) := by
      rw [← hitems, List.take_append_drop]
      rfl
    obtain ⟨size, hsize, hposition, hafter⟩ := Scan.resume hsplit
    rw [hp] at hposition hafter
    refine ⟨size, Nat.le_of_lt hsize, hposition, ?_⟩
    rw [scan, ← hafter, ← hitems, hposition, ← Position.advance_append, List.take_append_drop]
    rfl
  · -- The last start is the end, with no bytes left.
    have hp : base.advance bs = p := by
      simpa [starts, scan, hend] using h
    refine ⟨bs.length, Nat.le_refl _, by rw [List.take_length, hp], ?_⟩
    rw [drop, hend, List.drop_length, List.drop_length, ← hp]
    rfl

/-- Nothing is clamped where a position lies inside the source and its line as
well. -/
theorem scanFrom_of_fits {p : Position} (h : p.Fits) (hle : p.offset ≤ source.length) :
    scanFrom source p.offset p.line p.column = scan p (source.drop p.offset) := by
  obtain ⟨hpos, hcolumn⟩ := h
  have hmin : min (p.column - 1) p.offset + 1 = p.column := by omega
  simp only [scanFrom, Nat.min_eq_left hle, hmin]

/-- Scanning again from a start gives the rest of what was scanned, even if the
first scan began with a false line or column. -/
theorem scanFrom_start {offset line column i : Nat} {p : Position}
    (h : (scanFrom source offset line column).starts[i]? = some p) :
    scanFrom source p.offset p.line p.column = (scanFrom source offset line column).drop i := by
  have hbase : Position.Fits
      ⟨min offset source.length, line, min (column - 1) (min offset source.length) + 1⟩ :=
    ⟨by simp only; omega, by simp only; omega⟩
  unfold scanFrom at h
  obtain ⟨size, hsize, hp, hscan⟩ := scan_start h
  have hoffset : p.offset = min offset source.length + size := by
    rw [hp, Position.offset_advance, List.length_take_of_le hsize]
  rw [List.length_drop] at hsize
  have hfits : p.Fits := by
    rw [hp]
    exact hbase.advance _
  rw [scanFrom_of_fits hfits (by omega), hoffset, ← List.drop_drop, hscan]
  rfl

theorem ofSource_eq_scanFrom (source : List UInt8) : ofSource source = scanFrom source 0 1 1 := by
  have hmin : min 0 source.length = 0 := Nat.zero_min _
  simp only [scanFrom, hmin]
  rfl

/-- The starts of the tokens of a source have the lines and the columns of their
offsets, and so has its end. -/
theorem start_eq {i : Nat} {p : Position} (h : (ofSource source).starts[i]? = some p) :
    p = ⟨p.offset, Position.lineAt source p.offset, Position.columnAt source p.offset⟩ := by
  have hplaced := placed_behind source 0
  rw [behind_zero] at hplaced
  rcases List.mem_append.mp (List.mem_of_getElem? h) with hitem | hstop
  · obtain ⟨t, ht, rfl⟩ := List.mem_map.mp hitem
    exact hplaced.position t ht
  · rw [List.mem_singleton.mp hstop, hplaced.stop]

/-- Tokenizing can be resumed at any token and at the end. Every start among the
tokens of a source is a true position, and scanning again from its three numbers
gives the tokens from there on; and so it is with the tokens that are made from
any offset on, whatever line and column it is taken to have. -/
theorem scanFrom_resumes (source : List UInt8) :
    (∀ i p, (ofSource source).starts[i]? = some p →
      p = ⟨p.offset, Position.lineAt source p.offset, Position.columnAt source p.offset⟩ ∧
        scanFrom source p.offset p.line p.column = (ofSource source).drop i) ∧
    ∀ offset line column i p, (scanFrom source offset line column).starts[i]? = some p →
      scanFrom source p.offset p.line p.column = (scanFrom source offset line column).drop i := by
  refine ⟨?_, fun offset line column i p h => scanFrom_start h⟩
  intro i p h
  refine ⟨start_eq h, ?_⟩
  rw [ofSource_eq_scanFrom] at h ⊢
  exact scanFrom_start h

/-- A string that its line cuts short, behind a comment of two lines, and the
words behind it. Each of the starts can be resumed at. -/
theorem scanFrom_resumes_broken_string :
    let source := Text.bytes "/* \"\n*/ \"é\\\" \\\nb c"
    (ofSource source).starts = [⟨8, 2, 4⟩, ⟨16, 3, 1⟩, ⟨18, 3, 3⟩, ⟨19, 3, 4⟩] ∧
      scanFrom source 8 2 4 = ofSource source ∧
      scanFrom source 16 3 1 = ⟨[⟨.name, "b", ⟨16, 3, 1⟩⟩, ⟨.name, "c", ⟨18, 3, 3⟩⟩],
        ⟨19, 3, 4⟩⟩ ∧
      scanFrom source 19 3 4 = ⟨[], ⟨19, 3, 4⟩⟩ := by
  intro source
  have hscan : ofSource source = ⟨[⟨.unterminated, "é\" ", ⟨8, 2, 4⟩⟩, ⟨.name, "b", ⟨16, 3, 1⟩⟩,
      ⟨.name, "c", ⟨18, 3, 3⟩⟩], ⟨19, 3, 4⟩⟩ := by decide +kernel
  have hresumes := (scanFrom_resumes source).1
  rw [hscan] at hresumes ⊢
  exact ⟨rfl, (hresumes 0 _ rfl).2, (hresumes 1 _ rfl).2, (hresumes 3 _ rfl).2⟩

end Tokens

end BlockLang
