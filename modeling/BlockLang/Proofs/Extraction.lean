import BlockLang.Proofs.Opacity
import Mathlib.Data.List.TakeWhile
import Mathlib.Order.Bounds.Basic

/-! # Where a block ends

The bytes behind an opening brace fall into regions: code, quoted text and comments. The block ends
at the first closing brace of code before which the braces of code are balanced. What is found does
not depend on what stands behind it, and on what stands before it only through offsets and lines.
-/

namespace BlockLang

/-! ## Regions of a body -/

namespace Body

/-- How many bytes follow up to the end of quoted text, its closing quote
included. A backslash takes the next byte with it. -/
def toQuoteEnd (quote : UInt8) : List UInt8 → Nat
  | [] => 0
  | b :: rest =>
    if b = '\\'.toUInt8 then
      match rest with
      | [] => 1
      | _ :: after => toQuoteEnd quote after + 2
    else if b = quote then 1
    else toQuoteEnd quote rest + 1

/-- The region that a byte of code begins, and how many bytes it has after the
first. -/
def Region.beginning (b : UInt8) (rest : List UInt8) : Region × Nat :=
  if isQuote b then (.quoted b, toQuoteEnd b rest)
  else if b = '/'.toUInt8 ∧ rest.head? = some '/'.toUInt8 then (.lineComment, Scan.toLineEnd rest)
  else if b = '/'.toUInt8 ∧ rest.head? = some '*'.toUInt8 then
    (.blockComment, Scan.toCommentEnd rest.tail + 1)
  else (.code, 0)

/-- Each byte with its region, when the first `left` bytes still lie in
`region`. -/
def classify (region : Region) (left : Nat) : List UInt8 → List (UInt8 × Region)
  | [] => []
  | b :: rest =>
    match left with
    | left + 1 => (b, region) :: classify region left rest
    | 0 =>
      let start := Region.beginning b rest
      (b, start.1) :: classify start.1 start.2 rest

/-- How many blocks are open before a byte, when `depth` of them are open at the
start. -/
def depthAt (depth : Int) (bs : List (UInt8 × Region)) (i : Nat) : Int :=
  depth + (bs.take i).count ('{'.toUInt8, .code) - (bs.take i).count ('}'.toUInt8, .code)

def ClosesAt (depth : Int) (bs : List (UInt8 × Region)) (i : Nat) : Prop :=
  bs[i]? = some ('}'.toUInt8, .code) ∧ depthAt depth bs i = 1

def change (x : UInt8 × Region) : Int :=
  if x = ('{'.toUInt8, .code) then 1 else if x = ('}'.toUInt8, .code) then -1 else 0

@[simp] theorem change_of_ne_code (b : UInt8) {region : Region} (h : region ≠ .code) :
    change (b, region) = 0 := by
  simp [change, h]

theorem change_code {b : UInt8} (hopen : b ≠ '{'.toUInt8) (hclose : b ≠ '}'.toUInt8) :
    change (b, .code) = 0 := by
  simp [change, hopen, hclose]

/-- What a search for the end of a block must find: the first byte that closes
it, or that nothing does and how many blocks stay open. -/
def Finds (depth : Int) (bs : List (UInt8 × Region)) (offset : Nat) : Except Nat Nat → Prop
  | .ok n => ∃ i, n = offset + i ∧ ClosesAt depth bs i ∧ ∀ j < i, ¬ ClosesAt depth bs j
  | .error left => 1 ≤ left ∧ (left : Int) = depthAt depth bs bs.length ∧
      ∀ i, ¬ ClosesAt depth bs i

section

variable {depth : Int} {x : UInt8 × Region} {bs : List (UInt8 × Region)}

/-- A byte in front changes the number of open blocks once for all bytes behind
it. -/
theorem depthAt_cons (i : Nat) :
    depthAt depth (x :: bs) (i + 1) = depthAt (depth + change x) bs i := by
  simp only [depthAt, change, List.take_succ_cons, List.count_cons, beq_iff_eq]
  split_ifs with hopen hclose hclose
  · rw [hopen] at hclose
    exact absurd hclose (by decide)
  all_goals
    push_cast
    omega

theorem closesAt_cons {i : Nat} :
    ClosesAt depth (x :: bs) (i + 1) ↔ ClosesAt (depth + change x) bs i := by
  simp only [ClosesAt, depthAt_cons, List.getElem?_cons_succ]

theorem closesAt_zero : ClosesAt depth (x :: bs) 0 ↔ x = ('}'.toUInt8, .code) ∧ depth = 1 := by
  simp [ClosesAt, depthAt]

theorem finds_nil {depth : Nat} (offset : Nat) (h : 1 ≤ depth) :
    Finds depth [] offset (.error depth) :=
  ⟨h, by simp [depthAt], by simp [ClosesAt]⟩

theorem finds_close (bs : List (UInt8 × Region)) (offset : Nat) :
    Finds 1 (('}'.toUInt8, .code) :: bs) offset (.ok offset) :=
  ⟨0, rfl, closesAt_zero.mpr ⟨rfl, rfl⟩, fun _ hj => absurd hj (Nat.not_lt_zero _)⟩

variable {offset : Nat} {r : Except Nat Nat}

/-- A byte that does not close the block is passed, and what is found behind it
is found from it on. -/
theorem Finds.cons (hx : ¬ (x = ('}'.toUInt8, .code) ∧ depth = 1))
    (h : Finds (depth + change x) bs (offset + 1) r) : Finds depth (x :: bs) offset r := by
  have hnot : ∀ i, (∀ j < i, ¬ ClosesAt (depth + change x) bs j) →
      ∀ j < i + 1, ¬ ClosesAt depth (x :: bs) j := by
    intro i hi j hj
    cases j with
    | zero => exact fun hzero => hx (closesAt_zero.mp hzero)
    | succ j => exact fun hsucc => hi j (Nat.lt_of_succ_lt_succ hj) (closesAt_cons.mp hsucc)
  cases r with
  | ok n =>
      obtain ⟨i, rfl, hcloses, hfirst⟩ := h
      exact ⟨i + 1, by omega, closesAt_cons.mpr hcloses, hnot i hfirst⟩
  | error left =>
      obtain ⟨hleft, hdepth, hnone⟩ := h
      refine ⟨hleft, ?_, fun i => hnot i (fun j _ => hnone j) i (Nat.lt_succ_self i)⟩
      rw [List.length_cons, depthAt_cons, hdepth]

theorem Finds.pass (h : Finds depth bs (offset + 1) r) (hx : change x = 0) :
    Finds depth (x :: bs) offset r := by
  refine .cons ?_ ?_
  · rintro ⟨rfl, -⟩
    exact absurd hx (by decide)
  · rwa [hx, Int.add_zero]

end

def Region.left : Region → List UInt8 → Nat
  | .code, _ => 0
  | .quoted quote, bs => toQuoteEnd quote bs
  | .lineComment, bs => Scan.toLineEnd bs
  | .blockComment, bs => Scan.toCommentEnd bs

theorem classify_zero (region : Region) (bs : List UInt8) :
    classify region 0 bs = classify .code 0 bs := by
  cases bs <;> rfl

theorem classify_of_beginning {b : UInt8} {rest : List UInt8} {region : Region} {left : Nat}
    (h : Region.beginning b rest = (region, left)) :
    classify .code 0 (b :: rest) = (b, region) :: classify region left rest := by
  rw [classify, h]

theorem toQuoteEnd_cons {b : UInt8} (hb : b ≠ '\\'.toUInt8) (quote : UInt8) (rest : List UInt8) :
    toQuoteEnd quote (b :: rest) = if b = quote then 1 else toQuoteEnd quote rest + 1 := by
  rw [toQuoteEnd.eq_def]
  exact if_neg hb

theorem length_classify (region : Region) (left : Nat) (bs : List UInt8) :
    (classify region left bs).length = bs.length := by
  induction bs generalizing region left with
  | nil => rfl
  | cons b rest ih => cases left <;> simp [classify, ih]

/-- The search for the end of a block agrees with the regions of its bytes. -/
theorem finds_closing (region : Region) {depth : Nat} (offset : Nat) (bs : List UInt8)
    (hdepth : 1 ≤ depth) :
    Finds depth (classify region (region.left bs) bs) offset (closing region depth offset bs) := by
  -- Where the search jumps over two bytes, both are passed one after the other.
  fun_induction closing region depth offset bs with
  | case1 region depth offset => exact finds_nil offset hdepth
  | case2 depth offset quote => exact .pass (finds_nil _ hdepth) (by simp)
  | case3 depth offset quote b after ih =>
      exact .pass (.pass (ih hdepth) (by simp)) (by simp)
  | case4 depth offset b after quote hb ih =>
      rw [Region.left, toQuoteEnd_cons hb]
      by_cases hquote : b = quote
      · simp only [if_pos hquote] at ih ⊢
        refine .pass ?_ (by simp)
        rw [classify_zero]
        exact ih hdepth
      · simp only [if_neg hquote] at ih ⊢
        exact .pass (ih hdepth) (by simp)
  | case5 depth offset b after ih =>
      by_cases hb : b = '\n'.toUInt8
      · simp only [if_pos hb] at ih ⊢
        subst hb
        exact .pass (ih hdepth) (change_code (by decide) (by decide))
      · have hleft : Region.lineComment.left (b :: after) = Region.lineComment.left after + 1 := by
          simp [Region.left, Scan.toLineEnd, hb]
        rw [hleft]
        simp only [if_neg hb] at ih ⊢
        exact .pass (ih hdepth) (by simp)
  | case6 depth offset b => exact .pass (finds_nil _ hdepth) (by simp)
  | case7 depth offset b next after hend ih =>
      rw [Region.left, Scan.toCommentEnd, if_pos hend]
      refine .pass (.pass ?_ (by simp)) (by simp)
      rw [classify_zero]
      exact ih hdepth
  | case8 depth offset b next after hend ih =>
      rw [Region.left, Scan.toCommentEnd, if_neg hend]
      exact .pass (ih hdepth) (by simp)
  | case9 depth offset b after hquote ih =>
      have hstart : Region.beginning b after = (.quoted b, toQuoteEnd b after) := if_pos hquote
      rw [Region.left, classify_of_beginning hstart]
      exact .pass (ih hdepth) (by simp)
  | case10 depth offset b after hquote hline ih =>
      have hstart : Region.beginning b after = (.lineComment, Scan.toLineEnd after) := by
        rw [Region.beginning, if_neg hquote, if_pos hline]
      rw [Region.left, classify_of_beginning hstart]
      exact .pass (ih hdepth) (by simp)
  | case11 depth offset b hquote hline hblock => simp at hblock
  | case12 depth offset b hquote next after hline hblock ih =>
      have hstart : Region.beginning b (next :: after) =
          (.blockComment, Scan.toCommentEnd after + 1) := by
        rw [Region.beginning, if_neg hquote, if_neg hline, if_pos hblock, List.tail_cons]
      rw [Region.left, classify_of_beginning hstart]
      exact .pass (.pass (ih hdepth) (by simp)) (by simp)
  | case13 depth offset after hquote hline hblock ih =>
      have hstart : Region.beginning '{'.toUInt8 after = (.code, 0) := rfl
      rw [Region.left, classify_of_beginning hstart]
      exact .cons (fun hx => absurd hx.1 (by decide)) (ih (Nat.le_succ_of_le hdepth))
  | case14 depth offset after hle hquote hline hblock hopen =>
      have hstart : Region.beginning '}'.toUInt8 after = (.code, 0) := rfl
      obtain rfl : depth = 1 := Nat.le_antisymm hle hdepth
      rw [Region.left, classify_of_beginning hstart]
      exact finds_close _ offset
  | case15 depth offset after hle hquote hline hblock hopen ih =>
      have hstart : Region.beginning '}'.toUInt8 after = (.code, 0) := rfl
      have hchange : change ('}'.toUInt8, .code) = -1 := by decide
      have hcast : ((depth - 1 : Nat) : Int) = depth + change ('}'.toUInt8, .code) := by omega
      rw [Region.left, classify_of_beginning hstart]
      refine .cons (fun hx => hle (by omega)) ?_
      rw [← hcast]
      exact ih (by omega)
  | case16 depth offset b after hquote hline hblock hopen hclose ih =>
      have hstart : Region.beginning b after = (.code, 0) := by
        rw [Region.beginning, if_neg hquote, if_neg hline, if_neg hblock]
      rw [Region.left, classify_of_beginning hstart]
      exact .pass (ih hdepth) (change_code hopen hclose)

end Body

/-! ## Columns of characters -/

namespace Text

/-- The characters of a text behind its last newline. -/
def lastLine (s : String) : List Char := (s.toList.reverse.takeWhile (· != '\n')).reverse

theorem isContinuation_ofNat {n : Nat} (h : n < 256) :
    isContinuation (UInt8.ofNat n) = decide (128 ≤ n ∧ n < 192) := by
  have hmod : n % 256 = n := Nat.mod_eq_of_lt h
  simp [isContinuation, UInt8.le_iff_toNat_le, UInt8.lt_iff_toNat_lt, hmod]

/-- A character has one byte that continues no other, so counting these counts
characters. -/
theorem charCount_encode (c : Char) : Block.charCount (String.utf8EncodeChar c) = 1 := by
  simp only [String.utf8EncodeChar]
  split_ifs
  all_goals
    simp (disch := omega) only [Block.charCount, List.countP_cons, List.countP_nil,
      isContinuation_ofNat, Bool.not_eq_true', decide_eq_false_iff_not]
    split_ifs <;> omega

/-- Seen from its end, a character is passed whole, or it is the newline
itself. -/
theorem takeWhile_encode (c : Char) (bs : List UInt8) :
    ((String.utf8EncodeChar c).reverse ++ bs).takeWhile (· != '\n'.toUInt8) =
      if c = '\n' then [] else
        (String.utf8EncodeChar c).reverse ++ bs.takeWhile (· != '\n'.toUInt8) := by
  split_ifs with hc
  · rw [hc]
    rfl
  · apply List.takeWhile_append_of_pos
    intro b hb
    have hne : b ≠ '\n'.toUInt8 := by
      rintro rfl
      exact hc (eq_of_mem_encode (by decide) (List.mem_reverse.mp hb))
    simpa using hne

/-- Counting bytes that continue no character counts the characters of the last
line. -/
theorem charColumn_bytes (s : String) : Block.charColumn (bytes s) = (lastLine s).length + 1 := by
  rw [Block.charColumn, bytes_eq_flatMap, lastLine, List.length_reverse]
  congr 1
  induction s.toList using List.reverseRecOn with
  | nil => rfl
  | append_singleton cs c ih =>
      rw [List.flatMap_append, List.flatMap_singleton, List.reverse_append, takeWhile_encode,
        List.reverse_append, List.reverse_singleton, List.singleton_append, List.takeWhile_cons]
      by_cases hc : c = '\n'
      · simp [hc, Block.charCount]
      · have hencode := charCount_encode c
        simp only [Block.charCount] at ih hencode ⊢
        simp [hc, hencode, ih, Nat.add_comm]

theorem newlines_eq_count (s : String) : newlines s = s.toList.count '\n' := by
  rw [newlines, bytes_eq_flatMap]
  induction s.toList with
  | nil => rfl
  | cons c cs ih =>
      rw [List.flatMap_cons, List.count_append, ih, List.count_cons]
      by_cases hc : c = '\n'
      · rw [hc, if_pos (by decide), Nat.add_comm]
        rfl
      · have hnotMem : '\n'.toUInt8 ∉ String.utf8EncodeChar c :=
          fun hmem => hc (eq_of_mem_encode (by decide) hmem)
        rw [List.count_eq_zero.mpr hnotMem, if_neg (by simpa using hc), Nat.zero_add, Nat.add_zero]

/-- What stands before a text adds to its last line only if that is the first
line of the text. -/
theorem length_lastLine_append (w s : String) :
    (lastLine (w ++ s)).length = if newlines s = 0 then (lastLine w).length + (lastLine s).length
      else (lastLine s).length := by
  have hwhole : newlines s = 0 ↔
      s.toList.reverse.takeWhile (· != '\n') = s.toList.reverse := by
    rw [newlines_eq_count, List.count_eq_zero, List.takeWhile_eq_self_iff]
    constructor
    · intro h c hc
      have hne : c ≠ '\n' := by
        rintro rfl
        exact h (List.mem_reverse.mp hc)
      simpa using hne
    · intro h hmem
      simpa using h _ (List.mem_reverse.mpr hmem)
  have hlength : newlines s = 0 ↔
      (s.toList.reverse.takeWhile (· != '\n')).length = s.toList.reverse.length :=
    hwhole.trans ⟨congrArg List.length, (List.takeWhile_prefix _).eq_of_length⟩
  simp only [lastLine, List.length_reverse]
  rw [String.toList_append, List.reverse_append, List.takeWhile_append]
  by_cases hs : newlines s = 0
  · rw [if_pos hs, if_pos (hlength.mp hs), List.length_append, hwhole.mp hs, Nat.add_comm]
  · rw [if_neg hs, if_neg (mt hlength.mpr hs)]

end Text

/-! ## The block at an opening brace -/

namespace Block

def regions (source : List UInt8) (openOffset : Nat) : List (UInt8 × Body.Region) :=
  Body.classify .code 0 (source.drop (openOffset + 1))

/-- How many blocks are open before an offset, counted from an opening brace
on. -/
def depth (source : List UInt8) (openOffset offset : Nat) : Int :=
  Body.depthAt 1 (regions source openOffset) (offset - (openOffset + 1))

/-- Whether the brace of code at an offset closes the block of an opening
brace. -/
def Closes (source : List UInt8) (openOffset offset : Nat) : Prop :=
  openOffset < offset ∧
    (regions source openOffset)[offset - (openOffset + 1)]? = some ('}'.toUInt8, .code) ∧
    depth source openOffset offset = 1

instance (source : List UInt8) (openOffset offset : Nat) :
    Decidable (Closes source openOffset offset) :=
  inferInstanceAs (Decidable (_ ∧ _ ∧ _))

section

variable {source : List UInt8} {openOffset : Nat}

theorem isLeast_of_extract {block : Block} (h : extract source openOffset = .ok block) :
    IsLeast {offset | Closes source openOffset offset} block.closeOffset := by
  have hfinds := Body.finds_closing .code 0 (source.drop (openOffset + 1)) (Nat.le_refl 1)
  simp only [extract] at h
  split at h
  next size hsize =>
    rw [hsize] at hfinds
    obtain ⟨i, rfl, hcloses, hfirst⟩ := hfinds
    obtain rfl := Except.ok.inj h
    refine ⟨⟨by simp only; omega, ?_⟩, ?_⟩
    · simp only [depth, Nat.zero_add, Nat.add_sub_cancel_left]
      exact hcloses
    · rintro offset ⟨hlt, hcloses'⟩
      by_contra hnot
      exact hfirst (offset - (openOffset + 1)) (by simp only at hnot; omega) hcloses'
  next => cases h

/-- If no brace closes a block, some blocks stay open to the end, and the error
tells how many and where the first of them opens. -/
theorem unbalanced_of_extract {e : BlockError} (h : extract source openOffset = .error e) :
    (∀ offset, ¬ Closes source openOffset offset) ∧
      ∃ left : Nat, 1 ≤ left ∧ (left : Int) = depth source openOffset source.length ∧
        e = .unbalanced openOffset ((source.take openOffset).count '\n'.toUInt8 + 1)
          (charColumn (source.take openOffset)) left := by
  have hfinds := Body.finds_closing .code 0 (source.drop (openOffset + 1)) (Nat.le_refl 1)
  simp only [extract] at h
  split at h
  next => cases h
  next left hleft =>
    rw [hleft] at hfinds
    obtain ⟨hpos, hdepth, hnone⟩ := hfinds
    obtain rfl := Except.error.inj h
    refine ⟨fun offset hcloses => hnone _ hcloses.2, left, hpos, ?_, rfl⟩
    rw [hdepth, Body.length_classify, List.length_drop]
    rfl

end

/-- A block as it stands in a source: it ends at the first brace that closes it,
and its text has no blanks at the ends. -/
structure Encloses (s : String) (openOffset : Nat) (block : Block) : Prop where
  first : IsLeast {offset | Closes (Text.bytes s) openOffset offset} block.closeOffset
  behind : block.endOffset = block.closeOffset + 1
  slice : ∃ before inside after, s = before ++ r"{" ++ inside ++ r"}" ++ after ∧
    (Text.bytes before).length = openOffset ∧
    (Text.bytes (before ++ r"{" ++ inside)).length = block.closeOffset ∧
    block.text = Text.trim inside

section

variable {s : String} {openOffset : Nat}
  (hopen : (Text.bytes s)[openOffset]? = some '{'.toUInt8)

include hopen

theorem exists_split_of_open : ∃ before after, s = before ++ r"{" ++ after ∧
    (Text.bytes before).length = openOffset ∧
    Text.bytes before = (Text.bytes s).take openOffset ∧
    Text.bytes after = (Text.bytes s).drop (openOffset + 1) := by
  obtain ⟨hlt, hbrace⟩ := List.getElem?_eq_some_iff.mp hopen
  have hsplit : Text.bytes s = (Text.bytes s).take openOffset ++
      '{'.toUInt8 :: (Text.bytes s).drop (openOffset + 1) := by
    rw [← hbrace, ← List.drop_eq_getElem_cons hlt, List.take_append_drop]
  have hmark : Text.bytes r"{" = ['{'.toUInt8] := by decide
  obtain ⟨before, after, hs, hbefore, hafter⟩ :=
    Text.exists_split_of_bytes (by decide) hmark hsplit
  refine ⟨before, after, hs, ?_, hbefore, hafter⟩
  rw [hbefore, List.length_take]
  omega

/-- A block that is found is what its braces enclose, as texts and not only as
bytes. -/
theorem encloses_of_extract {block : Block} (h : extract (Text.bytes s) openOffset = .ok block) :
    Encloses s openOffset block := by
  refine ⟨isLeast_of_extract h, rfl, ?_⟩
  obtain ⟨before, tail, rfl, hlength, -, htail⟩ := exists_split_of_open hopen
  obtain ⟨inside, rest, hdrop, -, rfl⟩ := extract_eq_ok_iff.mp h
  rw [← htail] at hdrop
  have hmark : Text.bytes r"}" = ['}'.toUInt8] := by decide
  obtain ⟨inside, after, rfl, rfl, -⟩ := Text.exists_split_of_bytes (by decide) hmark hdrop
  refine ⟨before, inside, after, by simp only [String.append_assoc], hlength, ?_, ?_⟩
  · rw [Text.bytes_append, Text.bytes_append, List.length_append, List.length_append, hlength]
    rfl
  · rw [Text.ofBytes_bytes]

theorem extract_of_not_closes (h : ∀ offset, ¬ Closes (Text.bytes s) openOffset offset) :
    ∃ before after left, s = before ++ r"{" ++ after ∧
      (Text.bytes before).length = openOffset ∧
      1 ≤ left ∧ ((left : Nat) : Int) = depth (Text.bytes s) openOffset (Text.bytes s).length ∧
      extract (Text.bytes s) openOffset = .error (.unbalanced openOffset
        (Text.newlines before + 1) ((Text.lastLine before).length + 1) left) := by
  obtain ⟨before, after, hs, hlength, hbefore, -⟩ := exists_split_of_open hopen
  cases hextract : extract (Text.bytes s) openOffset with
  | ok block => exact absurd (isLeast_of_extract hextract).1 (h _)
  | error e =>
      obtain ⟨-, left, hpos, hdepth, rfl⟩ := unbalanced_of_extract hextract
      refine ⟨before, after, left, hs, hlength, hpos, hdepth, ?_⟩
      rw [← hbefore, Text.charColumn_bytes, Text.newlines]

end

/-! ## A block and its surroundings -/

theorem drop_bytes_append (w s : String) (n : Nat) :
    (Text.bytes (w ++ s)).drop ((Text.bytes w).length + n) = (Text.bytes s).drop n := by
  rw [Text.bytes_append, List.drop_length_add_append]

/-- Text in front moves a block and changes nothing of it. -/
theorem extract_append {s : String} {openOffset : Nat} {block : Block} (w : String)
    (h : extract (Text.bytes s) openOffset = .ok block) :
    extract (Text.bytes (w ++ s)) ((Text.bytes w).length + openOffset) =
      .ok ⟨block.text, (Text.bytes w).length + block.closeOffset⟩ := by
  obtain ⟨inside, rest, hdrop, hwhole, rfl⟩ := extract_eq_ok_iff.mp h
  refine extract_eq_ok_iff.mpr ⟨inside, rest, ?_, hwhole, ?_⟩
  · rw [Nat.add_assoc, drop_bytes_append, hdrop]
  · simp only [Nat.add_assoc]

/-- Text in front moves the error too. -/
theorem extract_append_error {s : String} {openOffset line column left : Nat} (w : String)
    (hopen : (Text.bytes s)[openOffset]? = some '{'.toUInt8)
    (h : extract (Text.bytes s) openOffset = .error (.unbalanced openOffset line column left)) :
    extract (Text.bytes (w ++ s)) ((Text.bytes w).length + openOffset) =
      .error (.unbalanced ((Text.bytes w).length + openOffset) (Text.newlines w + line)
        (if line = 1 then (Text.lastLine w).length + column else column) left) := by
  obtain ⟨before, after, -, -, hbefore, -⟩ := exists_split_of_open hopen
  have htake : (Text.bytes (w ++ s)).take ((Text.bytes w).length + openOffset) =
      Text.bytes (w ++ before) := by
    rw [Text.bytes_append, Text.bytes_append, hbefore, List.take_length_add_append]
  simp only [extract, Nat.add_assoc, drop_bytes_append, htake, ← hbefore] at h ⊢
  split at h
  next => cases h
  next left' hleft =>
    obtain ⟨-, rfl, rfl, rfl⟩ := BlockError.unbalanced.inj (Except.error.inj h)
    have hline : (Text.bytes before).count '\n'.toUInt8 = Text.newlines before := rfl
    have hcount : (Text.bytes (w ++ before)).count '\n'.toUInt8 =
        Text.newlines w + Text.newlines before := by
      rw [Text.bytes_append, List.count_append]
      rfl
    rw [hline, hcount, Text.charColumn_bytes, Text.charColumn_bytes, Text.length_lastLine_append]
    by_cases hfirst : Text.newlines before = 0
    · rw [if_pos hfirst, if_pos (by omega), Nat.add_assoc, Nat.add_assoc]
    · rw [if_neg hfirst, if_neg (by omega), Nat.add_assoc]

/-- The block of an opening brace is found exactly when a brace of code closes
it, and then up to the first such brace; otherwise the error tells where the
opening brace stands. Neither depends on what stands behind the block, and text
put in front moves both. -/
theorem extract_first_close {s : String} {openOffset : Nat}
    (hopen : (Text.bytes s)[openOffset]? = some '{'.toUInt8) :
    ((∃ block, extract (Text.bytes s) openOffset = .ok block) ↔
      ∃ offset, Closes (Text.bytes s) openOffset offset) ∧
    (∀ block, extract (Text.bytes s) openOffset = .ok block → Encloses s openOffset block) ∧
    ((∀ offset, ¬ Closes (Text.bytes s) openOffset offset) →
      ∃ before after left, s = before ++ r"{" ++ after ∧
        (Text.bytes before).length = openOffset ∧
        1 ≤ left ∧ ((left : Nat) : Int) = depth (Text.bytes s) openOffset (Text.bytes s).length ∧
        extract (Text.bytes s) openOffset = .error (.unbalanced openOffset
          (Text.newlines before + 1) ((Text.lastLine before).length + 1) left)) ∧
    (∀ block source, extract (Text.bytes s) openOffset = .ok block →
      (Text.bytes s).take block.endOffset = source.take block.endOffset →
      extract source openOffset = .ok block) ∧
    (∀ w block, extract (Text.bytes s) openOffset = .ok block →
      extract (Text.bytes (w ++ s)) ((Text.bytes w).length + openOffset) =
        .ok ⟨block.text, (Text.bytes w).length + block.closeOffset⟩) ∧
    ∀ w line column left,
      extract (Text.bytes s) openOffset = .error (.unbalanced openOffset line column left) →
      extract (Text.bytes (w ++ s)) ((Text.bytes w).length + openOffset) =
        .error (.unbalanced ((Text.bytes w).length + openOffset) (Text.newlines w + line)
          (if line = 1 then (Text.lastLine w).length + column else column) left) := by
  refine ⟨⟨?_, ?_⟩, fun _ => encloses_of_extract hopen, extract_of_not_closes hopen, ?_,
    fun w _ => extract_append w, fun w _ _ _ => extract_append_error w hopen⟩
  · rintro ⟨block, h⟩
    exact ⟨block.closeOffset, (isLeast_of_extract h).1⟩
  · rintro ⟨offset, hcloses⟩
    cases h : extract (Text.bytes s) openOffset with
    | ok block => exact ⟨block, rfl⟩
    | error e => exact absurd hcloses ((unbalanced_of_extract h).1 offset)
  · intro block source h htake
    exact Parser.extract_local htake h (Nat.lt_succ_self _)

/-- Quotes and comments hide braces, and the block is the same behind other
text. Offsets count bytes, of which some characters here have two. -/
theorem extract_first_close_hidden :
    let s := r"é{ '\'}' /*}*/ {ü} }z"
    (Text.bytes s)[2]? = some '{'.toUInt8 ∧
      Encloses s 2 ⟨r"'\'}' /*}*/ {ü}", 21⟩ ∧
      extract (Text.bytes ("//\n" ++ s)) 5 = .ok ⟨r"'\'}' /*}*/ {ü}", 24⟩ := by
  intro s
  have hopen : (Text.bytes s)[2]? = some '{'.toUInt8 := by decide +kernel
  have hblock : extract (Text.bytes s) 2 = .ok ⟨r"'\'}' /*}*/ {ü}", 21⟩ := by
    decide +kernel
  obtain ⟨-, hencloses, -, -, hmoved, -⟩ := extract_first_close hopen
  exact ⟨hopen, hencloses _ hblock, hmoved "//\n" _ hblock⟩

end Block

end BlockLang
