import BlockLang.FileTree.Operations
import BlockLang.Proofs.ImportCycles

/-! # Where operations act

A path that can name a file has a slot, the location at which a file written to it comes to stand.
Which slot that is depends on the directories of a tree alone, and files are written, moved and
removed without touching a directory. So the operations on files are changes of single slots.
-/

namespace BlockLang.FileTree

variable {t u v : FileTree} {path : String} {l k : Location}

/-! ## Entries -/

theorem lookup_entry (l k : Location) (e : Entry) (rest : List (Location × Entry)) :
    ((l, e) :: rest).lookup k = if k = l then some e else rest.lookup k := by
  by_cases hk : k = l
  · simp [hk]
  · simp [List.lookup_cons, beq_false_of_ne hk, hk]

theorem lookup_setEntry (l k : Location) (e : Entry) (entries : List (Location × Entry)) :
    (setEntry l e entries).lookup k = if k = l then some e else entries.lookup k := by
  induction entries with
  | nil => simp only [setEntry, lookup_entry]
  | cons entry rest ih =>
      obtain ⟨first, old⟩ := entry
      by_cases hfirst : first = l
      · by_cases hk : k = l <;> simp [setEntry, lookup_entry, hfirst, hk]
      · by_cases hk : k = first
        · simp [setEntry, hfirst, hk]
        · simp only [setEntry, if_neg hfirst, lookup_entry, if_neg hk, ih]

theorem lookup_erased (l k : Location) (entries : List (Location × Entry)) :
    (entries.filter (·.1 ≠ l)).lookup k = if k = l then none else entries.lookup k := by
  induction entries with
  | nil => simp
  | cons entry rest ih =>
      obtain ⟨first, old⟩ := entry
      by_cases hfirst : first = l
      · rw [List.filter_cons_of_neg (by simpa using hfirst), ih]
        by_cases hk : k = l <;> simp [lookup_entry, hfirst, hk]
      · rw [List.filter_cons_of_pos (by simpa using hfirst), lookup_entry, ih]
        by_cases hk : k = first
        · simp [hk, hfirst]
        · simp [lookup_entry, hk]

/-- What is stored at a location is found there, and nothing else changes. -/
theorem get?_set (t : FileTree) (hl : l ≠ []) (e : Entry) (k : Location) :
    (t.set l e).get? k = if k = l then some e else t.get? k := by
  by_cases hk : k = []
  · simp [get?, hk, hl.symm]
  · simp only [get?, if_neg hk, set, lookup_setEntry]

theorem get?_erase (t : FileTree) (hl : l ≠ []) (k : Location) :
    (t.erase l).get? k = if k = l then none else t.get? k := by
  by_cases hk : k = []
  · simp [get?, hk, hl.symm]
  · simp only [get?, if_neg hk, erase, lookup_erased]

/-! ## Directories -/

/-- Whether paths that are followed in a tree lead the same way in another one:
it has the same working directory and all the directories. -/
structure DirectoriesIn (t u : FileTree) : Prop where
  workingDirectory : t.workingDirectory = u.workingDirectory
  directory : ∀ l, t.get? l = some .directory → u.get? l = some .directory

theorem DirectoriesIn.refl (t : FileTree) : t.DirectoriesIn t := ⟨rfl, fun _ h => h⟩

theorem DirectoriesIn.trans (h : t.DirectoriesIn u) (h' : u.DirectoriesIn v) :
    t.DirectoriesIn v :=
  ⟨h.workingDirectory.trans h'.workingDirectory, fun l hl => h'.directory l (h.directory l hl)⟩

theorem DirectoriesIn.enter (h : t.DirectoriesIn u) {segment : String}
    (henter : t.enter l segment = .ok k) : u.enter l segment = .ok k := by
  unfold FileTree.enter at henter ⊢
  split_ifs at henter ⊢ with hhere habove
  · exact henter
  · exact henter
  · split at henter
    · cases henter
    · cases henter
    · cases henter
    next hchild =>
      obtain ⟨hlimit, hget⟩ := child?_eq_ok_iff.mp hchild
      rw [child?_eq_ok_iff.mpr ⟨hlimit, h.directory _ hget⟩]
      exact henter

/-- The way that a path takes through directories is the same wherever these
directories are. -/
theorem DirectoriesIn.enterAll (h : t.DirectoriesIn u) {segments : List String}
    (henter : t.enterAll l segments = .ok k) : u.enterAll l segments = .ok k := by
  unfold FileTree.enterAll at henter ⊢
  induction segments generalizing l with
  | nil => exact henter
  | cons segment rest ih =>
      rw [List.foldlM_cons] at henter ⊢
      obtain ⟨next, hnext, hrest⟩ := Except.bind_eq_ok_iff.mp henter
      exact Except.bind_eq_ok_iff.mpr ⟨next, h.enter hnext, ih hrest⟩

/-- Where the last part of a path is to be looked up is settled by the
directories before it. -/
theorem DirectoriesIn.parent (h : t.DirectoriesIn u) {last : Last}
    (hparent : t.parent path = .ok (l, last)) : u.parent path = .ok (l, last) := by
  have horigin : u.origin path = t.origin path := by rw [origin, origin, h.workingDirectory]
  unfold FileTree.parent at hparent ⊢
  split_ifs at hparent ⊢
  split at hparent
  · exact hparent
  next before _ =>
    obtain ⟨directory, henter, hlast⟩ := Except.map_eq_ok_iff.mp hparent
    rw [horigin]
    exact Except.map_eq_ok_iff.mpr ⟨directory, h.enterAll henter, hlast⟩

/-- Whether two trees have the same directories, so that every path has the same
slot in both. -/
def SameDirectories (t u : FileTree) : Prop := t.DirectoriesIn u ∧ u.DirectoriesIn t

theorem SameDirectories.refl (t : FileTree) : t.SameDirectories t := ⟨.refl t, .refl t⟩

theorem SameDirectories.symm (h : t.SameDirectories u) : u.SameDirectories t := ⟨h.2, h.1⟩

theorem SameDirectories.trans (h : t.SameDirectories u) (h' : u.SameDirectories v) :
    t.SameDirectories v :=
  ⟨h.1.trans h'.1, h'.2.trans h.2⟩

theorem SameDirectories.get?_eq_directory_iff (h : t.SameDirectories u) :
    t.get? l = some .directory ↔ u.get? l = some .directory :=
  ⟨h.1.directory l, h.2.directory l⟩

/-- A tree that differs from another one only at locations without a directory
on either side has the same directories. -/
theorem sameDirectories_of (hworking : t.workingDirectory = u.workingDirectory)
    (h : ∀ l, t.get? l = u.get? l ∨ t.get? l ≠ some .directory ∧ u.get? l ≠ some .directory) :
    t.SameDirectories u := by
  refine ⟨⟨hworking, ?_⟩, ⟨hworking.symm, ?_⟩⟩
  · intro l hl
    rcases h l with heq | ⟨hne, -⟩
    · rw [← heq, hl]
    · exact absurd hl hne
  · intro l hl
    rcases h l with heq | ⟨-, hne⟩
    · rw [heq, hl]
    · exact absurd hl hne

/-! ## Slots -/

/-- Where a file that is written to a path comes to stand. A path that can only
lead to a directory has no slot. -/
def slot? (t : FileTree) (path : String) : Option Location :=
  match t.parent path with
  | .ok (directory, .name name false) =>
    if nameLimit < name.utf8ByteSize then none else some (directory ++ [name])
  | _ => none

/-- A path has a slot exactly if it ends in a name that is short enough, in a
directory that can be reached. -/
theorem slot?_eq_some_iff : t.slot? path = some l ↔ ∃ directory name,
    t.parent path = .ok (directory, .name name false) ∧ name.utf8ByteSize ≤ nameLimit ∧
      l = directory ++ [name] := by
  constructor
  · intro h
    unfold slot? at h
    split at h
    next directory name hparent =>
      split_ifs at h with hlimit
      exact ⟨directory, name, hparent, Nat.le_of_not_lt hlimit, (Option.some.inj h).symm⟩
    next => cases h
  · rintro ⟨directory, name, hparent, hlimit, rfl⟩
    simp only [slot?, hparent, if_neg (Nat.not_lt.mpr hlimit)]

theorem ne_nil_of_slot? (h : t.slot? path = some l) : l ≠ [] := by
  obtain ⟨directory, name, -, -, rfl⟩ := slot?_eq_some_iff.mp h
  simp

theorem DirectoriesIn.slot? (h : t.DirectoriesIn u) (hslot : t.slot? path = some l) :
    u.slot? path = some l := by
  obtain ⟨directory, name, hparent, hlimit, rfl⟩ := slot?_eq_some_iff.mp hslot
  exact slot?_eq_some_iff.mpr ⟨directory, name, h.parent hparent, hlimit, rfl⟩

/-- The slot of a path depends on directories only, and on no file. -/
theorem SameDirectories.slot? (h : t.SameDirectories u) : t.slot? path = u.slot? path := by
  apply Option.ext
  intro l
  exact ⟨h.1.slot?, h.2.slot?⟩

theorem child?_of_le {name : String} (h : name.utf8ByteSize ≤ nameLimit) :
    t.child? l name = .ok (t.get? (l ++ [name])) :=
  child?_eq_ok_iff.mpr ⟨h, rfl⟩

/-! ## Operations -/

/-- Creating a file succeeds exactly if its path has a slot that is no
directory, and it fills this slot. -/
theorem create_eq_ok_iff {contents : List UInt8} :
    t.create path contents = .ok u ↔ ∃ l, t.slot? path = some l ∧ t.get? l ≠ some .directory ∧
      u = t.set l (.file contents) := by
  constructor
  · intro h
    obtain ⟨⟨directory, last⟩, hparent, h⟩ := Except.bind_eq_ok_iff.mp h
    match last with
    | .name name false =>
        obtain ⟨child, hchild, h⟩ := Except.bind_eq_ok_iff.mp h
        obtain ⟨hlimit, rfl⟩ := child?_eq_ok_iff.mp hchild
        split at h
        next => cases h
        next hdirectory =>
          exact ⟨_, slot?_eq_some_iff.mpr ⟨directory, name, hparent, hlimit, rfl⟩, hdirectory,
            (Except.ok.inj h).symm⟩
    | .name _ true => cases h
    | .here => cases h
    | .above => cases h
  · rintro ⟨l, hslot, hdirectory, rfl⟩
    obtain ⟨directory, name, hparent, hlimit, rfl⟩ := slot?_eq_some_iff.mp hslot
    refine Except.bind_eq_ok_iff.mpr ⟨_, hparent, ?_⟩
    refine Except.bind_eq_ok_iff.mpr ⟨_, child?_of_le hlimit, ?_⟩
    split
    next heq => exact absurd heq hdirectory
    next => rfl

/-- Moving a file succeeds exactly if there is one in the slot of the old path
and no directory in that of the new one. -/
theorem rename_eq_ok_iff {old new : String} :
    t.rename old new = .ok u ↔ ∃ l k contents, t.slot? old = some l ∧ t.slot? new = some k ∧
      t.get? l = some (.file contents) ∧ t.get? k ≠ some .directory ∧
      u = (t.erase l).set k (.file contents) := by
  constructor
  · intro h
    obtain ⟨⟨oldDirectory, oldLast⟩, hold, h⟩ := Except.bind_eq_ok_iff.mp h
    obtain ⟨⟨newDirectory, newLast⟩, hnew, h⟩ := Except.bind_eq_ok_iff.mp h
    split at h
    next hold' hnew' =>
      obtain ⟨rfl, rfl⟩ := Prod.mk.inj hold'
      obtain ⟨rfl, rfl⟩ := Prod.mk.inj hnew'
      obtain ⟨source, hsource, h⟩ := Except.bind_eq_ok_iff.mp h
      obtain ⟨target, htarget, h⟩ := Except.bind_eq_ok_iff.mp h
      obtain ⟨holdLimit, rfl⟩ := child?_eq_ok_iff.mp hsource
      obtain ⟨hnewLimit, rfl⟩ := child?_eq_ok_iff.mp htarget
      split at h
      next => cases h
      next => cases h
      next contents hcontents =>
        -- A trailing slash asks for a directory, which a file is not.
        split_ifs at h with hslash hdirectory
        obtain ⟨holdSlash, hnewSlash⟩ := not_or.mp hslash
        rw [Bool.not_eq_true] at holdSlash hnewSlash
        rw [holdSlash] at hold
        rw [hnewSlash] at hnew
        exact ⟨_, _, contents, slot?_eq_some_iff.mpr ⟨_, _, hold, holdLimit, rfl⟩,
          slot?_eq_some_iff.mpr ⟨_, _, hnew, hnewLimit, rfl⟩, hcontents, hdirectory,
          (Except.ok.inj h).symm⟩
    next => cases h
  · rintro ⟨l, k, contents, hold, hnew, hcontents, hdirectory, rfl⟩
    obtain ⟨oldDirectory, oldName, hparent, holdLimit, rfl⟩ := slot?_eq_some_iff.mp hold
    obtain ⟨newDirectory, newName, hparent', hnewLimit, rfl⟩ := slot?_eq_some_iff.mp hnew
    refine Except.bind_eq_ok_iff.mpr ⟨_, hparent, Except.bind_eq_ok_iff.mpr ⟨_, hparent', ?_⟩⟩
    refine Except.bind_eq_ok_iff.mpr ⟨_, child?_of_le holdLimit, ?_⟩
    refine Except.bind_eq_ok_iff.mpr ⟨_, child?_of_le hnewLimit, ?_⟩
    simp only [hcontents, if_neg hdirectory]
    rfl

/-- A path leads to a file exactly if the file is in its slot, so files are
never reached through a slash at the end. -/
theorem find_eq_file_iff {contents : List UInt8} :
    t.find path = .ok (l, .file contents) ↔
      t.slot? path = some l ∧ t.get? l = some (.file contents) := by
  constructor
  · intro h
    obtain ⟨⟨directory, last⟩, hparent, h⟩ := Except.bind_eq_ok_iff.mp h
    match last with
    | .here => cases h
    | .above => cases h
    | .name name slash =>
        obtain ⟨child, hchild, h⟩ := Except.bind_eq_ok_iff.mp h
        obtain ⟨hlimit, rfl⟩ := child?_eq_ok_iff.mp hchild
        split at h
        next => cases h
        next hget =>
          split_ifs at h with hslash
          rw [Bool.not_eq_true] at hslash
          obtain ⟨rfl, hfile⟩ := Prod.mk.inj (Except.ok.inj h)
          rw [hslash] at hparent
          exact ⟨slot?_eq_some_iff.mpr ⟨_, _, hparent, hlimit, rfl⟩, hget.trans (congrArg _ hfile)⟩
        next => cases h
  · rintro ⟨hslot, hget⟩
    obtain ⟨directory, name, hparent, hlimit, rfl⟩ := slot?_eq_some_iff.mp hslot
    refine Except.bind_eq_ok_iff.mpr ⟨_, hparent, ?_⟩
    refine Except.bind_eq_ok_iff.mpr ⟨_, child?_of_le hlimit, ?_⟩
    simp only [hget]
    rfl

/-- A directory that a path leads to is found wherever the directories of its
tree are. -/
theorem DirectoriesIn.find_directory (h : t.DirectoriesIn u)
    (hfind : t.find path = .ok (l, .directory)) : u.find path = .ok (l, .directory) := by
  obtain ⟨⟨directory, last⟩, hparent, hfind⟩ := Except.bind_eq_ok_iff.mp hfind
  refine Except.bind_eq_ok_iff.mpr ⟨_, h.parent hparent, ?_⟩
  match last with
  | .here => exact hfind
  | .above => exact hfind
  | .name name slash =>
      obtain ⟨child, hchild, hfind⟩ := Except.bind_eq_ok_iff.mp hfind
      obtain ⟨hlimit, rfl⟩ := child?_eq_ok_iff.mp hchild
      refine Except.bind_eq_ok_iff.mpr ⟨_, child?_of_le hlimit, ?_⟩
      split at hfind
      next => cases hfind
      next =>
        split_ifs at hfind
        cases hfind
      next hget =>
        rw [h.directory _ hget]
        exact hfind

/-- Removing a file succeeds exactly if there is one in the slot of its path,
and it empties this slot. -/
theorem removeFile_eq_ok_iff :
    t.removeFile path = .ok u ↔ ∃ l contents, t.slot? path = some l ∧
      t.get? l = some (.file contents) ∧ u = t.erase l := by
  constructor
  · intro h
    obtain ⟨⟨l, e⟩, hfind, h⟩ := Except.bind_eq_ok_iff.mp h
    cases e with
    | directory => cases h
    | file contents =>
        obtain ⟨hslot, hget⟩ := find_eq_file_iff.mp hfind
        exact ⟨l, contents, hslot, hget, (Except.ok.inj h).symm⟩
  · rintro ⟨l, contents, hslot, hget, rfl⟩
    exact Except.bind_eq_ok_iff.mpr ⟨_, find_eq_file_iff.mpr ⟨hslot, hget⟩, rfl⟩

theorem read_eq_ok_iff {contents : List UInt8} :
    t.read path = .ok contents ↔ ∃ l, t.slot? path = some l ∧ t.get? l = some (.file contents) := by
  constructor
  · intro h
    obtain ⟨⟨l, e⟩, hfind, h⟩ := Except.bind_eq_ok_iff.mp h
    cases e with
    | directory => cases h
    | file contents' =>
        obtain rfl := Except.ok.inj h
        exact ⟨l, find_eq_file_iff.mp hfind⟩
  · rintro ⟨l, hfile⟩
    exact Except.bind_eq_ok_iff.mpr ⟨_, find_eq_file_iff.mpr hfile, rfl⟩

theorem sameDirectories_set (hl : l ≠ []) (hdirectory : t.get? l ≠ some .directory)
    (contents : List UInt8) : t.SameDirectories (t.set l (.file contents)) := by
  refine sameDirectories_of rfl fun k => ?_
  rw [get?_set t hl]
  by_cases hk : k = l
  · exact .inr ⟨hk ▸ hdirectory, by simp [hk]⟩
  · exact .inl (by simp [hk])

theorem sameDirectories_erase (hl : l ≠ []) (hdirectory : t.get? l ≠ some .directory) :
    t.SameDirectories (t.erase l) := by
  refine sameDirectories_of rfl fun k => ?_
  rw [get?_erase t hl]
  by_cases hk : k = l
  · exact .inr ⟨hk ▸ hdirectory, by simp [hk]⟩
  · exact .inl (by simp [hk])

/-! ## What a path leads to -/

def entryAt (t : FileTree) (path : String) : Option Entry := (t.find path).toOption.map Prod.snd

theorem entryAt_eq_some_iff {e : Entry} :
    t.entryAt path = some e ↔ ∃ l, t.find path = .ok (l, e) := by
  unfold entryAt
  cases t.find path with
  | error e => simp [Except.toOption]
  | ok found => simp [Except.toOption, Prod.ext_iff]

theorem entryAt_eq_file_iff {contents : List UInt8} :
    t.entryAt path = some (.file contents) ↔
      ∃ l, t.slot? path = some l ∧ t.get? l = some (.file contents) := by
  simp only [entryAt_eq_some_iff, find_eq_file_iff]

/-- A path leads to the same in two trees with the same directories if these
have the same in its slot. -/
theorem SameDirectories.entryAt_eq (h : t.SameDirectories u)
    (hslot : ∀ l, t.slot? path = some l → t.get? l = u.get? l) :
    t.entryAt path = u.entryAt path := by
  apply Option.ext
  intro e
  cases e with
  | directory =>
      rw [entryAt_eq_some_iff, entryAt_eq_some_iff]
      exact exists_congr fun l => ⟨h.1.find_directory, h.2.find_directory⟩
  | file contents =>
      rw [entryAt_eq_file_iff, entryAt_eq_file_iff, ← h.slot?]
      exact exists_congr fun l => and_congr_right fun hl => by rw [hslot l hl]

/-! ## Making directories -/

structure AddsDirectories (t u : FileTree) : Prop where
  directories : t.DirectoriesIn u
  files : ∀ l contents, u.get? l = some (.file contents) ↔ t.get? l = some (.file contents)

theorem AddsDirectories.refl (t : FileTree) : t.AddsDirectories t := ⟨.refl t, fun _ _ => Iff.rfl⟩

theorem AddsDirectories.trans (h : t.AddsDirectories u) (h' : u.AddsDirectories v) :
    t.AddsDirectories v :=
  ⟨h.directories.trans h'.directories, fun l c => (h'.files l c).trans (h.files l c)⟩

/-- Making a directory adds it where nothing was, and touches no file. -/
theorem makeDirectory_adds (h : t.makeDirectory path = .ok u) : t.AddsDirectories u := by
  obtain ⟨⟨directory, last⟩, -, h⟩ := Except.bind_eq_ok_iff.mp h
  match last with
  | .here => cases h
  | .above => cases h
  | .name name slash =>
      obtain ⟨child, hchild, h⟩ := Except.bind_eq_ok_iff.mp h
      obtain ⟨-, rfl⟩ := child?_eq_ok_iff.mp hchild
      split at h
      next => cases h
      next hnone =>
        obtain rfl := Except.ok.inj h
        have hget := t.get?_set (l := directory ++ [name]) (by simp) .directory
        refine ⟨⟨rfl, fun l hl => ?_⟩, fun l contents => ?_⟩
        · rw [hget]
          split_ifs
          · rfl
          · exact hl
        · rw [hget]
          split_ifs with hl
          · simp [hl, hnone]
          · rfl

theorem makeEach_adds (t : FileTree) (paths : List String) :
    t.AddsDirectories (t.makeEach paths).tree := by
  induction paths generalizing t with
  | nil => exact .refl t
  | cons path rest ih =>
      unfold makeEach
      split
      next made hmade => exact (makeDirectory_adds hmade).trans (ih made)
      next =>
        split_ifs
        · exact ih t
        · exact .refl t

/-- On the way to the innermost directory that can be made, and back,
directories are added and nothing else. -/
theorem makeFrom_adds (t : FileTree) (passed paths : List String) :
    t.AddsDirectories (t.makeFrom passed paths).tree := by
  induction paths generalizing passed with
  | nil => exact t.makeEach_adds passed
  | cons path rest ih =>
      unfold makeFrom
      split
      next made hmade => exact (makeDirectory_adds hmade).trans (made.makeEach_adds passed)
      next =>
        split_ifs
        · exact ih _
        · exact t.makeEach_adds passed
        · exact .refl t

theorem makeDirectories_adds (t : FileTree) (path : String) :
    t.AddsDirectories (t.makeDirectories path).tree := t.makeFrom_adds ..

end BlockLang.FileTree
