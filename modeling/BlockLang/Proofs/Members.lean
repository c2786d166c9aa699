import BlockLang.Json.Value
import Mathlib.Data.List.Nodup
import Mathlib.Tactic.SplitIfs

/-! # Members

The members of a JSON object are a record: a list of keys with their values, in the order of the
keys. Setting a key keeps that order, and changes what is found under this key alone.
-/

namespace BlockLang

namespace Json.Members

variable {key : String} {value : Json} {record other : Json.Members}

/-- Whether the keys of a record stand in their order, so that there is one of
each. -/
def Ordered (record : Json.Members) : Prop := record.Pairwise fun a b => a.1 < b.1

theorem keys_insert (key' : String) : key' ∈ (record.insert key value).map Prod.fst ↔
    key' = key ∨ key' ∈ record.map Prod.fst := by
  induction record with
  | nil => simp [insert]
  | cons member rest ih =>
      unfold insert
      split_ifs with hlt heq
      · simp
      · simp [heq]
      · rw [List.map_cons, List.mem_cons, ih, List.map_cons, List.mem_cons]
        exact or_left_comm

/-- A record with a key set gives the new value for that key and what it gave
before for all others. -/
theorem lookup_insert (key k : String) (value : Json) (record : Json.Members) :
    (Json.Members.insert key value record).lookup k =
      if k = key then some value else record.lookup k := by
  induction record with
  | nil => grind [Json.Members.insert]
  | cons member record ih => grind [Json.Members.insert]

/-- A key is put where the order wants it, so that an ordered record stays
one. -/
theorem Ordered.insert (h : record.Ordered) : (record.insert key value).Ordered := by
  induction record with
  | nil => exact List.pairwise_singleton _ _
  | cons member rest ih =>
      obtain ⟨hfirst, hrest⟩ := List.pairwise_cons.mp h
      unfold Members.insert
      split_ifs with hlt heq
      · refine List.pairwise_cons.mpr ⟨?_, h⟩
        intro other hother
        rcases List.mem_cons.mp hother with rfl | hmem
        · exact hlt
        · exact String.lt_trans hlt (hfirst other hmem)
      · subst heq
        exact List.pairwise_cons.mpr ⟨hfirst, hrest⟩
      · refine List.pairwise_cons.mpr ⟨?_, ih hrest⟩
        intro other hother
        rcases (keys_insert other.1).mp (List.mem_map_of_mem hother) with hkey | hmem
        · rw [hkey]
          exact Std.lt_of_le_of_ne (String.not_lt.mp hlt) (Ne.symm heq)
        · obtain ⟨same, hsame, heq⟩ := List.mem_map.mp hmem
          exact heq ▸ hfirst same hsame

theorem Ordered.nodup (h : record.Ordered) : (record.map Prod.fst).Nodup :=
  List.pairwise_map.mpr (h.imp String.ne_of_lt)

/-- In a record a key has one value, the one that is found under it. -/
theorem Ordered.mem_iff (h : record.Ordered) :
    (key, value) ∈ record ↔ record.lookup key = some value := by
  rw [List.lookup_eq_some_iff]
  constructor
  · intro hmem
    obtain ⟨before, after, rfl⟩ := List.append_of_mem hmem
    refine ⟨before, after, rfl, fun member hmember => ?_⟩
    have hlt := (List.pairwise_append.mp h).2.2 member hmember _ List.mem_cons_self
    simpa using (String.ne_of_lt hlt).symm
  · rintro ⟨before, after, rfl, -⟩
    simp

/-- Records in order with the same values under each key are the same, so a
record is determined by what is found in it. -/
theorem Ordered.ext (h : record.Ordered) (h' : other.Ordered)
    (hlookup : ∀ key, record.lookup key = other.lookup key) : record = other := by
  have hnodup : record.Nodup := List.Nodup.of_map _ h.nodup
  have hnodup' : other.Nodup := List.Nodup.of_map _ h'.nodup
  have hperm : record.Perm other := by
    rw [List.perm_ext_iff_of_nodup hnodup hnodup']
    intro member
    rw [h.mem_iff, h'.mem_iff, hlookup]
  refine hperm.eq_of_pairwise ?_ h h'
  intro a b _ _ hlt hgt
  exact absurd hgt (String.lt_asymm hlt)

end Json.Members

end BlockLang
