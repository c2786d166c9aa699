import BlockLang.Proofs.Encoding
import BlockLang.Proofs.Lists
import BlockLang.Proofs.Scanning
import Mathlib.Data.List.TakeWhile

/-! # Words, numbers and strings

What the words, numbers and strings of a source look like, and that the scanner finds their ends.
Words and numbers are as long as they can be. A string has an interior, which tells its contents by
its escapes, and an ending, which is its closing quote unless the line or the source ends before.
-/

namespace BlockLang

namespace Scan

/-! ## Words and numbers -/

/-- Letters, digits and underscores that do not begin with a digit. -/
def Word (bs : List UInt8) : Prop :=
  (∃ b rest, bs = b :: rest ∧ isWordStart b = true) ∧ ∀ b ∈ bs, isWordPart b = true

def Digits (bs : List UInt8) : Prop := bs ≠ [] ∧ ∀ b ∈ bs, isDigit b = true

def Fraction (bs : List UInt8) : Prop :=
  bs = [] ∨ ∃ digits, bs = '.'.toUInt8 :: digits ∧ Digits digits

/-- Digits with an optional minus sign before them and an optional fraction
behind them. -/
def Numeral (bs : List UInt8) : Prop :=
  ∃ sign whole fraction, bs = sign ++ whole ++ fraction ∧
    (sign = [] ∨ sign = ['-'.toUInt8]) ∧ Digits whole ∧ Fraction fraction

/-- Bytes of some form that cannot be made longer by the bytes behind them. -/
structure Longest (form : List UInt8 → Prop) (bs rest : List UInt8) : Prop where
  whole : form bs
  longest : ∀ longer, longer <+: bs ++ rest → form longer → longer.length ≤ bs.length

/-- A word is as long as it can be: the first byte behind it could not be part
of it. -/
theorem longest_word {b : UInt8} (hb : isWordStart b = true) (rest : List UInt8) :
    Longest Word (b :: rest.takeWhile isWordPart) (rest.dropWhile isWordPart) where
  whole := by
    refine ⟨⟨b, _, rfl, hb⟩, List.forall_mem_cons.mpr ⟨?_, fun _ => List.mem_takeWhile_imp⟩⟩
    simp [isWordPart, hb]
  longest := by
    rintro longer ⟨tail, hsplit⟩ ⟨⟨c, more, rfl, -⟩, hparts⟩
    rw [List.cons_append, List.cons_append, List.takeWhile_append_dropWhile] at hsplit
    obtain ⟨rfl, rfl⟩ := List.cons.inj hsplit
    exact Nat.succ_le_succ
      (List.length_le_takeWhile (fun x hx => hparts x (List.mem_cons_of_mem _ hx)) tail)

/-- A number is the digits that follow, and a fraction if there is one. -/
theorem exists_toNumberEnd (bs : List UInt8) :
    ∃ fraction after, bs = bs.takeWhile isDigit ++ fraction ++ after ∧ Fraction fraction ∧
      toNumberEnd bs = (bs.takeWhile isDigit ++ fraction).length := by
  obtain ⟨tail, htail⟩ := List.takeWhile_prefix isDigit (l := bs)
  have hdrop : bs.drop (bs.takeWhile isDigit).length = tail := by
    have hleft := @List.drop_left _ (bs.takeWhile isDigit) tail
    rwa [htail] at hleft
  simp only [toNumberEnd, hdrop]
  cases tail with
  | nil => exact ⟨[], [], by simpa using htail.symm, .inl rfl, by simp⟩
  | cons point rest =>
      simp only
      split_ifs with hpoint
      · obtain ⟨rfl, hdigits⟩ := hpoint
        refine ⟨'.'.toUInt8 :: rest.takeWhile isDigit, rest.dropWhile isDigit, ?_,
          .inr ⟨_, rfl, ?_, fun _ => List.mem_takeWhile_imp⟩, ?_⟩
        · rw [List.append_assoc, List.cons_append, List.takeWhile_append_dropWhile, htail]
        · exact fun hnil => hdigits (by rw [hnil, List.length_nil])
        · rw [List.length_append, List.length_cons, Nat.add_assoc, Nat.add_comm 1]
      · exact ⟨[], point :: rest, by simpa using htail.symm, .inl rfl, by simp⟩

/-- No number that begins here is longer, whichever way its digits and its
fraction are told apart. -/
theorem length_le_toNumberEnd {whole fraction : List UInt8}
    (hwhole : ∀ b ∈ whole, isDigit b = true) (hfraction : Fraction fraction) (after : List UInt8) :
    (whole ++ fraction).length ≤ toNumberEnd (whole ++ fraction ++ after) := by
  rcases hfraction with rfl | ⟨digits, rfl, hne, hdigits⟩
  · obtain ⟨fraction, -, -, -, hend⟩ := exists_toNumberEnd (whole ++ [] ++ after)
    have hle := List.length_le_takeWhile hwhole after
    rw [hend, List.append_nil, List.length_append]
    omega
  · have htake : (whole ++ '.'.toUInt8 :: (digits ++ after)).takeWhile isDigit = whole := by
      rw [List.takeWhile_append_of_pos hwhole, List.takeWhile_cons_of_neg (by decide),
        List.append_nil]
    have hle := List.length_le_takeWhile hdigits after
    have hpos := List.length_pos_iff.mpr hne
    have hcount : ((digits ++ after).takeWhile isDigit).length ≠ 0 := by omega
    rw [List.append_assoc, List.cons_append]
    simp only [toNumberEnd, htake, List.drop_left, true_and, if_pos hcount, List.length_append,
      List.length_cons]
    omega

/-- A number is as long as it can be, behind its first digit or behind a minus
sign that a digit follows. -/
theorem longest_numeral {b : UInt8} {rest : List UInt8}
    (h : isDigit b = true ∨ b = '-'.toUInt8 ∧ rest.head?.any isDigit = true) :
    ∃ bs after, rest = bs ++ after ∧ toNumberEnd rest = bs.length ∧
      Longest Numeral (b :: bs) after := by
  obtain ⟨fraction, after, hsplit, hfraction, hend⟩ := exists_toNumberEnd rest
  have hdigits : ∀ x ∈ rest.takeWhile isDigit, isDigit x = true := fun _ => List.mem_takeWhile_imp
  refine ⟨rest.takeWhile isDigit ++ fraction, after, hsplit, hend, ?_, ?_⟩
  · rcases h with hb | ⟨rfl, hhead⟩
    · exact ⟨[], b :: rest.takeWhile isDigit, fraction, rfl, .inl rfl,
        ⟨List.cons_ne_nil _ _, List.forall_mem_cons.mpr ⟨hb, hdigits⟩⟩, hfraction⟩
    · refine ⟨['-'.toUInt8], rest.takeWhile isDigit, fraction, rfl, .inr rfl, ⟨?_, hdigits⟩,
        hfraction⟩
      cases rest with
      | nil => cases hhead
      | cons d rest => simp [List.takeWhile_cons_of_pos (show isDigit d = true from hhead)]
  · rintro longer ⟨tail, htail⟩ ⟨sign, whole, more, rfl, hsign, ⟨hne, hwhole⟩, hmore⟩
    rw [List.cons_append, ← hsplit] at htail
    rw [List.length_cons, ← hend]
    rcases hsign with rfl | rfl
    · cases whole with
      | nil => exact absurd rfl hne
      | cons d whole =>
          obtain ⟨rfl, rfl⟩ := List.cons.inj htail
          exact Nat.succ_le_succ
            (length_le_toNumberEnd (List.forall_mem_cons.mp hwhole).2 hmore tail)
    · obtain ⟨rfl, rfl⟩ := List.cons.inj htail
      exact Nat.succ_le_succ (length_le_toNumberEnd hwhole hmore tail)

theorem lt_of_isDigit {b : UInt8} (h : isDigit b = true) : b < 128 := by
  simp only [isDigit, Bool.and_eq_true, decide_eq_true_eq] at h
  exact UInt8.lt_of_le_of_lt h.2 (by decide)

theorem lt_of_isWordPart {b : UInt8} (h : isWordPart b = true) : b < 128 := by
  simp only [isWordPart, isWordStart, Bool.or_eq_true, Bool.and_eq_true, decide_eq_true_eq,
    beq_iff_eq] at h
  rcases h with ((⟨-, hle⟩ | ⟨-, hle⟩) | rfl) | hdigit
  · exact UInt8.lt_of_le_of_lt hle (by decide)
  · exact UInt8.lt_of_le_of_lt hle (by decide)
  · decide
  · exact lt_of_isDigit hdigit

theorem Numeral.lt {bs : List UInt8} (h : Numeral bs) : ∀ b ∈ bs, b < 128 := by
  obtain ⟨sign, whole, fraction, rfl, hsign, ⟨-, hwhole⟩, hfraction⟩ := h
  simp only [List.forall_mem_append]
  refine ⟨⟨?_, fun b hb => lt_of_isDigit (hwhole b hb)⟩, ?_⟩
  · rcases hsign with rfl | rfl
    · simp
    · simp only [List.mem_singleton, forall_eq]
      decide
  · rcases hfraction with rfl | ⟨digits, rfl, -, hdigits⟩
    · simp
    · exact List.forall_mem_cons.mpr ⟨by decide, fun b hb => lt_of_isDigit (hdigits b hb)⟩

/-! ## Strings -/

def escaped (c : Char) : Char :=
  if c = 'n' then '\n' else if c = 't' then '\t' else if c = 'r' then '\r' else c

/-- The characters between the quotes of a string, and the text they stand
for. -/
inductive Interior : List Char → List Char → Prop
  | nil : Interior [] []
  | plain {c : Char} {raw text : List Char} (hquote : c ≠ '"') (hnewline : c ≠ '\n')
      (hbackslash : c ≠ '\\') (h : Interior raw text) : Interior (c :: raw) (c :: text)
  | escape {c : Char} {raw text : List Char} (hnewline : c ≠ '\n') (h : Interior raw text) :
      Interior ('\\' :: c :: raw) (escaped c :: text)

/-- What stands behind the interior of a string: its closing quote, or a newline
or the end of the source, perhaps with a backslash before it. -/
inductive Ending : List Char → List Char → Bool → Prop
  | closed (rest : List Char) : Ending ['"'] rest true
  | cut {lone rest : List Char} (hlone : lone = [] ∨ lone = ['\\'])
      (hrest : rest = [] ∨ rest.head? = some '\n') : Ending lone rest false

def Quotation.append (bs : List UInt8) (taken : Nat) (q : Quotation) : Quotation :=
  { q with contents := bs ++ q.contents, size := taken + q.size }

theorem Quotation.cons_append (b : UInt8) (taken n : Nat) (bs : List UInt8) (q : Quotation) :
    (q.append bs n).cons b taken = q.append (b :: bs) (taken + n) := by
  simp [Quotation.cons, Quotation.append, Nat.add_assoc]

theorem Quotation.append_append (xs ys : List UInt8) (m n : Nat) (q : Quotation) :
    (q.append ys n).append xs m = q.append (xs ++ ys) (m + n) := by
  simp [Quotation.append, Nat.add_assoc]

/-- Bytes that are no quote, newline or backslash stand for themselves. -/
theorem quotation_plain {xs : List UInt8} (ys : List UInt8)
    (h : ∀ b ∈ xs, b ≠ '"'.toUInt8 ∧ b ≠ '\n'.toUInt8 ∧ b ≠ '\\'.toUInt8) :
    quotation (xs ++ ys) = (quotation ys).append xs xs.length := by
  induction xs with
  | nil => simp [Quotation.append]
  | cons b xs ih =>
      obtain ⟨⟨hquote, hnewline, hbackslash⟩, hxs⟩ := List.forall_mem_cons.mp h
      rw [List.cons_append, quotation.eq_def]
      simp only [if_neg hquote, if_neg hnewline, if_neg hbackslash, ih hxs, Quotation.cons_append]
      rw [List.length_cons, Nat.add_comm]

/-- A character that is no special one stands for itself, all its bytes
together. -/
theorem quotation_char {c : Char} (ys : List UInt8) (hquote : c ≠ '"') (hnewline : c ≠ '\n')
    (hbackslash : c ≠ '\\') :
    quotation (String.utf8EncodeChar c ++ ys) =
      (quotation ys).append (String.utf8EncodeChar c) (String.utf8EncodeChar c).length := by
  apply quotation_plain
  intro b hb
  refine ⟨?_, ?_, ?_⟩ <;> rintro rfl
  · exact hquote (Text.eq_of_mem_encode (by decide) hb)
  · exact hnewline (Text.eq_of_mem_encode (by decide) hb)
  · exact hbackslash (Text.eq_of_mem_encode (by decide) hb)

/-- Replacing the byte behind a backslash replaces the character that it
begins. -/
theorem encode_escaped {c : Char} {b : UInt8} {bs : List UInt8}
    (h : String.utf8EncodeChar c = b :: bs) :
    String.utf8EncodeChar (escaped c) = unescape b :: bs := by
  have hb : b ∈ String.utf8EncodeChar c := by simp [h]
  have hne : ∀ d : Char, d.toNat < 128 → c ≠ d → b ≠ d.toUInt8 := by
    rintro d hd hc rfl
    exact hc (Text.eq_of_mem_encode hd hb)
  unfold escaped
  split_ifs with hn ht hr
  · subst hn
    obtain ⟨rfl, rfl⟩ := List.cons.inj h
    rfl
  · subst ht
    obtain ⟨rfl, rfl⟩ := List.cons.inj h
    rfl
  · subst hr
    obtain ⟨rfl, rfl⟩ := List.cons.inj h
    rfl
  · rw [h, unescape, if_neg (hne _ (by decide) hn), if_neg (hne _ (by decide) ht),
      if_neg (hne _ (by decide) hr)]

/-- A character behind a backslash is replaced by what it stands for, and both
count as read. -/
theorem quotation_escape {c : Char} (ys : List UInt8) (hnewline : c ≠ '\n') :
    quotation ('\\'.toUInt8 :: (String.utf8EncodeChar c ++ ys)) =
      (quotation ys).append (String.utf8EncodeChar (escaped c))
        (1 + (String.utf8EncodeChar c).length) := by
  cases hc : String.utf8EncodeChar c with
  | nil => exact absurd hc (Text.encode_ne_nil c)
  | cons b bs =>
      have hb : b ≠ '\n'.toUInt8 := by
        rintro rfl
        exact hnewline (Text.eq_of_mem_encode (by decide) (by rw [hc]; exact List.mem_cons_self))
      -- The later bytes of a character are at least 128, so none of them is special.
      have hbs : ∀ x ∈ bs, x ≠ '"'.toUInt8 ∧ x ≠ '\n'.toUInt8 ∧ x ≠ '\\'.toUInt8 := by
        intro x hx
        have hle := Text.le_of_encode_eq_cons hc hx
        refine ⟨?_, ?_, ?_⟩ <;> rintro rfl <;> exact absurd hle (by decide)
      rw [encode_escaped hc, List.cons_append, quotation.eq_def]
      simp only [if_neg hb, quotation_plain ys hbs, Quotation.cons_append]
      rw [if_neg (by decide), if_neg (by decide), if_pos trivial, List.length_cons]
      congr 1
      omega

/-- The interior of a string gives its contents. -/
theorem quotation_interior {raw text : List Char} (h : Interior raw text) (ys : List UInt8) :
    quotation (raw.flatMap String.utf8EncodeChar ++ ys) =
      (quotation ys).append (text.flatMap String.utf8EncodeChar)
        (raw.flatMap String.utf8EncodeChar).length := by
  induction h with
  | nil => simp [Quotation.append]
  | plain hquote hnewline hbackslash _ ih =>
      rw [List.flatMap_cons, List.append_assoc, quotation_char _ hquote hnewline hbackslash, ih,
        Quotation.append_append, List.flatMap_cons, List.length_append]
  | @escape c raw text hnewline _ ih =>
      have hbackslash : String.utf8EncodeChar '\\' = ['\\'.toUInt8] := rfl
      rw [List.flatMap_cons, List.flatMap_cons, hbackslash, List.singleton_append, List.cons_append,
        List.append_assoc, quotation_escape _ hnewline, ih, Quotation.append_append,
        List.flatMap_cons, List.length_cons, List.length_append]
      congr 1
      omega

/-- The ending of a string gives nothing, whether it closes the string or only
cuts it off. -/
theorem quotation_ending {ending rest : List Char} {closed : Bool}
    (h : Ending ending rest closed) :
    quotation ((ending ++ rest).flatMap String.utf8EncodeChar) =
      ⟨[], (ending.flatMap String.utf8EncodeChar).length, closed⟩ := by
  rw [List.flatMap_append]
  cases h with
  | closed rest =>
      rw [quotation.eq_def]
      rfl
  | cut hlone hrest =>
      have hcut : rest = [] ∨ ∃ tail, rest = '\n' :: tail :=
        hrest.imp id List.head?_eq_some_iff.mp
      rcases hlone with rfl | rfl <;> rcases hcut with rfl | ⟨tail, rfl⟩
      · rfl
      · exact quotation_newline _
      · rfl
      · rw [quotation.eq_def]
        rfl

/-- Behind an opening quote stand the interior and the ending of a string,
whatever the text is. -/
theorem exists_interior (cs : List Char) : ∃ raw ending rest text closed,
    cs = raw ++ ending ++ rest ∧ Interior raw text ∧ Ending ending rest closed := by
  -- An escape takes two characters at once, so the induction is on the length.
  induction hn : cs.length using Nat.strongRecOn generalizing cs with
  | ind n ih =>
      subst hn
      cases cs with
      | nil => exact ⟨[], [], [], [], false, rfl, .nil, .cut (.inl rfl) (.inl rfl)⟩
      | cons c cs =>
          by_cases hquote : c = '"'
          · exact ⟨[], ['"'], cs, [], true, by simp [hquote], .nil, .closed cs⟩
          by_cases hnewline : c = '\n'
          · exact ⟨[], [], c :: cs, [], false, rfl, .nil,
              .cut (.inl rfl) (.inr (by rw [hnewline]; rfl))⟩
          by_cases hbackslash : c = '\\'
          · subst hbackslash
            cases cs with
            | nil => exact ⟨[], ['\\'], [], [], false, rfl, .nil, .cut (.inr rfl) (.inl rfl)⟩
            | cons d cs =>
                by_cases hd : d = '\n'
                · exact ⟨[], ['\\'], d :: cs, [], false, rfl, .nil,
                    .cut (.inr rfl) (.inr (by rw [hd]; rfl))⟩
                · obtain ⟨raw, ending, rest, text, closed, rfl, hinterior, hending⟩ :=
                    ih cs.length (by simp only [List.length_cons]; omega) cs rfl
                  exact ⟨'\\' :: d :: raw, ending, rest, escaped d :: text, closed, rfl,
                    .escape hd hinterior, hending⟩
          · obtain ⟨raw, ending, rest, text, closed, rfl, hinterior, hending⟩ :=
              ih cs.length (Nat.lt_succ_self _) cs rfl
            exact ⟨c :: raw, ending, rest, c :: text, closed, rfl,
              .plain hquote hnewline hbackslash hinterior, hending⟩

end Scan

end BlockLang
