import BlockLang.Text.Utf8
import Mathlib.Data.List.Basic

/-! # Bytes of texts

The bytes of a text are those of its characters one after the other. A byte below 128 is a whole
character, so a text can be cut there into two texts.
-/

namespace BlockLang.Text

/-- A text is its characters in UTF-8, one after another. -/
theorem bytes_eq_flatMap (s : String) : bytes s = s.toList.flatMap String.utf8EncodeChar := by
  rw [bytes, ← String.utf8Encode_toList, List.utf8Encode, List.data_toByteArray]

theorem bytes_ofList (cs : List Char) :
    bytes (String.ofList cs) = cs.flatMap String.utf8EncodeChar := by
  rw [bytes_eq_flatMap, String.toList_ofList]

theorem bytes_append (s t : String) : bytes (s ++ t) = bytes s ++ bytes t := by
  simp [bytes, String.toByteArray_append]

variable {s : String} {c : Char} {b : UInt8} {before after : List UInt8}

theorem bytes_of_ofBytes? {bs : List UInt8} (h : ofBytes? bs = some s) : bytes s = bs := by
  simp only [ofBytes?, String.fromUTF8?] at h
  split at h
  · cases h
    simp [bytes, String.fromUTF8]
  · cases h

theorem encode_of_ascii (h : c.toNat < 128) : String.utf8EncodeChar c = [c.toUInt8] := by
  have hle : c.val.toNat ≤ 127 := Nat.le_of_lt_succ h
  simp only [String.utf8EncodeChar]
  rw [if_pos hle]
  rfl

theorem le_ofNat {n : Nat} (hle : 128 ≤ n) (hlt : n < 256) : 128 ≤ UInt8.ofNat n := by
  rw [UInt8.le_iff_toNat_le, UInt8.toNat_ofNat', Nat.mod_eq_of_lt hlt]
  exact hle

/-- The bytes of a character outside ASCII are all outside ASCII. -/
theorem le_of_mem_encode (h : 128 ≤ c.toNat) (hb : b ∈ String.utf8EncodeChar c) : 128 ≤ b := by
  have hlt : ¬ c.val.toNat ≤ 127 := Nat.not_le.mpr h
  simp only [String.utf8EncodeChar, if_neg hlt] at hb
  split_ifs at hb <;> simp only [List.mem_cons, List.not_mem_nil, or_false] at hb
  · rcases hb with rfl | rfl <;> exact le_ofNat (by omega) (by omega)
  · rcases hb with rfl | rfl | rfl <;> exact le_ofNat (by omega) (by omega)
  · rcases hb with rfl | rfl | rfl | rfl <;> exact le_ofNat (by omega) (by omega)

theorem encode_ne_nil (c : Char) : String.utf8EncodeChar c ≠ [] := by
  intro hnil
  have hlength := congrArg List.length hnil
  rw [String.length_utf8EncodeChar] at hlength
  exact Nat.ne_of_gt (Char.utf8Size_pos c) hlength

/-- A byte below 128 is not part of a longer character: a character that has it
among its bytes is this byte alone. -/
theorem encode_of_mem (hb : b < 128) (hmem : b ∈ String.utf8EncodeChar c) :
    String.utf8EncodeChar c = [b] := by
  by_cases hc : c.toNat < 128
  · rw [encode_of_ascii hc] at hmem ⊢
    rw [List.mem_singleton.mp hmem]
  · have hle := le_of_mem_encode (Nat.not_lt.mp hc) hmem
    exact absurd hb (UInt8.not_lt.mpr hle)

theorem le_of_encode_eq_cons {first : UInt8} {more : List UInt8}
    (h : String.utf8EncodeChar c = first :: more) (hb : b ∈ more) : 128 ≤ b := by
  by_contra hlt
  have hmem : b ∈ String.utf8EncodeChar c := by rw [h]; exact List.mem_cons_of_mem _ hb
  have hone := encode_of_mem (UInt8.not_le.mp hlt) hmem
  rw [h] at hone
  obtain ⟨-, rfl⟩ := List.cons.inj hone
  cases hb

/-- Bytes of characters can be cut before a byte below 128, and both parts are
bytes of characters again. -/
theorem exists_append_of_encode {cs : List Char} (hb : b < 128)
    (h : cs.flatMap String.utf8EncodeChar = before ++ b :: after) :
    ∃ cs₁ cs₂, cs = cs₁ ++ cs₂ ∧ cs₁.flatMap String.utf8EncodeChar = before ∧
      cs₂.flatMap String.utf8EncodeChar = b :: after := by
  induction cs generalizing before with
  | nil => simp at h
  | cons c rest ih =>
      rw [List.flatMap_cons] at h
      rcases List.append_eq_append_iff.mp h with ⟨more, hbefore, hrest⟩ | ⟨more, hencode, hrest⟩
      · obtain ⟨cs₁, cs₂, rfl, h₁, h₂⟩ := ih hrest
        refine ⟨c :: cs₁, cs₂, rfl, ?_, h₂⟩
        rw [List.flatMap_cons, h₁, hbefore]
      · cases more with
        | nil =>
            refine ⟨[c], rest, rfl, ?_, hrest.symm⟩
            simpa using hencode
        | cons first more =>
            -- The byte belongs to `c`, which it then is all of.
            obtain ⟨rfl, hafter⟩ := List.cons.inj hrest
            have hc := encode_of_mem hb (by rw [hencode]; simp : b ∈ String.utf8EncodeChar c)
            rw [hc, List.singleton_eq_append_iff] at hencode
            have hempty : before = [] ∧ more = [] := by simpa using hencode
            refine ⟨[], c :: rest, rfl, hempty.1.symm, ?_⟩
            rw [List.flatMap_cons, hc, hafter, hempty.2]
            rfl

/-- A text can be cut before a byte that is a whole character, so offsets of
tokens are places where a text falls into two texts. -/
theorem exists_append_of_bytes (hb : b < 128) (h : bytes s = before ++ b :: after) :
    ∃ s₁ s₂, s = s₁ ++ s₂ ∧ bytes s₁ = before ∧ bytes s₂ = b :: after := by
  rw [bytes_eq_flatMap] at h
  obtain ⟨cs₁, cs₂, hcs, h₁, h₂⟩ := exists_append_of_encode hb h
  refine ⟨String.ofList cs₁, String.ofList cs₂, ?_, ?_, ?_⟩
  · rw [← String.ofList_append, ← hcs, String.ofList_toList]
  · rw [bytes_ofList, h₁]
  · rw [bytes_ofList, h₂]

/-- Bytes below 128 are a text, which has these bytes and no others. -/
theorem bytes_ofBytes {bs : List UInt8} (h : ∀ b ∈ bs, b < 128) : bytes (ofBytes bs) = bs := by
  have hchars : bytes (String.ofList (bs.map Char.ofUInt8)) = bs := by
    rw [bytes_ofList, List.flatMap_map]
    induction bs with
    | nil => rfl
    | cons b rest ih =>
        have hb : (Char.ofUInt8 b).toNat < 128 := UInt8.lt_iff_toNat_lt.mp (h b List.mem_cons_self)
        have hbyte : (Char.ofUInt8 b).toUInt8 = b := UInt8.toUInt8_toUInt32 b
        rw [List.flatMap_cons, ih fun x hx => h x (List.mem_cons_of_mem _ hx), encode_of_ascii hb,
          hbyte]
        rfl
  rw [← hchars, ofBytes_bytes]

theorem bytes_injective {t : String} (h : bytes s = bytes t) : s = t := by
  rw [← ofBytes_bytes s, h, ofBytes_bytes]

theorem encode_injective {d : Char} (h : String.utf8EncodeChar c = String.utf8EncodeChar d) :
    c = d := by
  have hbytes : bytes (String.ofList [c]) = bytes (String.ofList [d]) := by
    rw [bytes_ofList, bytes_ofList, List.flatMap_singleton, List.flatMap_singleton, h]
  have hlist := congrArg String.toList (bytes_injective hbytes)
  simpa using hlist

theorem eq_of_mem_encode {d : Char} (hd : d.toNat < 128)
    (h : d.toUInt8 ∈ String.utf8EncodeChar c) : c = d := by
  have hlt : d.toUInt8 < 128 := by
    have hmod : d.toUInt8.toNat = d.toNat % 256 := UInt8.toNat_ofNat'
    rw [UInt8.lt_iff_toNat_lt, hmod]
    exact Nat.lt_of_le_of_lt (Nat.mod_le _ _) hd
  apply encode_injective
  rw [encode_of_mem hlt h, encode_of_ascii hd]

/-- A text can be cut at a character that is one byte. -/
theorem exists_split_of_bytes {mark : String} (hb : b < 128) (hmark : bytes mark = [b])
    (h : bytes s = before ++ b :: after) :
    ∃ s₁ s₂, s = s₁ ++ mark ++ s₂ ∧ bytes s₁ = before ∧ bytes s₂ = after := by
  obtain ⟨s₁, r, rfl, hbefore, hr⟩ := exists_append_of_bytes hb h
  rw [bytes_eq_flatMap] at hr
  cases hcs : r.toList with
  | nil => simp [hcs] at hr
  | cons c cs =>
      rw [hcs, List.flatMap_cons] at hr
      have hmem : b ∈ String.utf8EncodeChar c := by
        cases hencode : String.utf8EncodeChar c with
        | nil => exact absurd hencode (encode_ne_nil c)
        | cons first more =>
            rw [hencode] at hr
            simp [(List.cons.inj hr).1]
      rw [encode_of_mem hb hmem] at hr
      refine ⟨s₁, String.ofList cs, ?_, hbefore, ?_⟩
      · apply bytes_injective
        rw [bytes_append, bytes_append, bytes_append, hmark, bytes_ofList, bytes_eq_flatMap r, hcs,
          List.flatMap_cons, encode_of_mem hb hmem, List.append_assoc]
      · rw [bytes_ofList]
        exact (List.cons.inj hr).2

end BlockLang.Text
