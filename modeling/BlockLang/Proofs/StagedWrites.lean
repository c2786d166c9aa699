import BlockLang.FileTree.Replace
import BlockLang.Proofs.SiblingPaths

/-! # Staged writes

Replacing files runs in two phases. The first fills the slots beside the targets and empties them
again if one cannot be filled. The second moves them to the targets one after the other and stops
at the first that cannot be moved. What either phase leaves is told slot by slot.
-/

namespace BlockLang.FileTree

variable {t u v : FileTree} {path : String} {paths : List String} {l : Location}
  {contents : List UInt8} {files : List (String × List UInt8)}

def stagingSlot? (t : FileTree) (path : String) : Option Location := t.slot? (Path.temporary path)

theorem SameDirectories.stagingSlot? (h : t.SameDirectories u) :
    t.stagingSlot? path = u.stagingSlot? path := h.slot?

/-! ## Steps -/

/-- Writing new contents beside a target fills the slot beside it and nothing
else. -/
theorem stage_eq_ok (h : t.stage path contents = .ok u) :
    ∃ k, t.stagingSlot? path = some k ∧ t.SameDirectories u ∧
      ∀ l, u.get? l = if l = k then some (.file contents) else t.get? l := by
  obtain ⟨k, hslot, hdirectory, rfl⟩ := create_eq_ok_iff.mp h
  exact ⟨k, hslot, sameDirectories_set (ne_nil_of_slot? hslot) hdirectory contents,
    get?_set t (ne_nil_of_slot? hslot) _⟩

/-- Moving contents to their target fills the target and empties the slot beside
it. -/
theorem commit_eq_ok (h : t.commit path = .ok u) :
    ∃ k l contents, t.stagingSlot? path = some k ∧ t.slot? path = some l ∧
      t.get? k = some (.file contents) ∧ t.SameDirectories u ∧
      ∀ m, u.get? m =
        if m = l then some (.file contents) else if m = k then none else t.get? m := by
  obtain ⟨k, l, contents, hstaging, hslot, hget, hdirectory, rfl⟩ := rename_eq_ok_iff.mp h
  have hk := ne_nil_of_slot? hstaging
  have hl := ne_nil_of_slot? hslot
  have herased : t.SameDirectories (t.erase k) := sameDirectories_erase hk (by simp [hget])
  refine ⟨k, l, contents, hstaging, hslot, hget, herased.trans (sameDirectories_set hl ?_ _), ?_⟩
  · rwa [Ne, ← herased.get?_eq_directory_iff]
  · intro m
    rw [get?_set _ hl, get?_erase t hk]

def Replaceable (t : FileTree) (path : String) : Prop :=
  ∃ l, t.slot? path = some l ∧ t.get? l ≠ some .directory

theorem SameDirectories.replaceable_iff (h : t.SameDirectories u) :
    t.Replaceable path ↔ u.Replaceable path := by
  unfold Replaceable
  simp only [h.slot?, Ne, h.get?_eq_directory_iff]

variable {e : IoError} {file : String × List UInt8} {staged : FileTree} {other : String}

/-- If there is something to move, only the target can be why it cannot be
moved. -/
theorem not_replaceable_of_commit (h : t.commit path = .error e) {k : Location}
    (hstaging : t.stagingSlot? path = some k) (hget : t.get? k = some (.file contents)) :
    ¬ t.Replaceable path := by
  rintro ⟨l, hslot, hdirectory⟩
  have hok : t.commit path = .ok _ :=
    rename_eq_ok_iff.mpr ⟨k, l, contents, hstaging, hslot, hget, hdirectory, rfl⟩
  rw [h] at hok
  cases hok

/-! ## Runs -/

def stageEach (t : FileTree) (files : List (String × List UInt8)) : Except IoError FileTree :=
  files.foldlM (fun t file => t.stage file.1 file.2) t

def commitEach (t : FileTree) (paths : List String) : Except IoError FileTree :=
  paths.foldlM commit t

theorem commitAll_cons (t : FileTree) (path : String) (rest : List String) :
    t.commitAll (path :: rest) = match t.commit path with
      | .error e => ⟨.error (path, e), t⟩
      | .ok done => done.commitAll rest := by
  -- The step is given a name before the definition is opened, so that it is not computed.
  generalize hcommit : t.commit path = step
  change (match t.commit path with
    | .error e => Outcome.mk (.error (path, e)) t
    | .ok done => done.commitAll rest) = _
  rw [hcommit]

theorem stageAll_cons (t : FileTree) (staged : List String) (file : String × List UInt8)
    (rest : List (String × List UInt8)) :
    t.stageAll staged (file :: rest) = match t.stage file.1 file.2 with
      | .error e => ⟨.error (file.1, e), t.discard staged⟩
      | .ok next => next.stageAll (staged ++ [file.1]) rest := by
  generalize hstage : t.stage file.1 file.2 = step
  change (match t.stage file.1 file.2 with
    | .error e => Outcome.mk (.error (file.1, e)) (t.discard staged)
    | .ok next => next.stageAll (staged ++ [file.1]) rest) = _
  rw [hstage]

/-- The second phase ends well, or it stops at the first target that cannot be
replaced. -/
theorem commitAll_cases (t : FileTree) (paths : List String) :
    (∃ u, t.commitEach paths = .ok u ∧ t.commitAll paths = ⟨.ok (), u⟩) ∨
    ∃ before path after u e, paths = before ++ path :: after ∧ t.commitEach before = .ok u ∧
      u.commit path = .error e ∧ t.commitAll paths = ⟨.error (path, e), u⟩ := by
  induction paths generalizing t with
  | nil => exact .inl ⟨t, rfl, rfl⟩
  | cons path rest ih =>
      cases hcommit : t.commit path with
      | error e =>
          refine .inr ⟨[], path, rest, t, e, rfl, rfl, hcommit, ?_⟩
          rw [commitAll_cons, hcommit]
      | ok next =>
          have hall : t.commitAll (path :: rest) = next.commitAll rest := by
            rw [commitAll_cons, hcommit]
          have heach (paths : List String) :
              t.commitEach (path :: paths) = next.commitEach paths := by
            rw [commitEach, List.foldlM_cons, hcommit]
            rfl
          rw [hall]
          rcases ih next with
            ⟨u, hrun, hrest⟩ | ⟨before, failed, after, u, e, rfl, hrun, hfail, hrest⟩
          · exact .inl ⟨u, (heach rest).trans hrun, hrest⟩
          · exact .inr ⟨path :: before, failed, after, u, e, rfl, (heach before).trans hrun, hfail,
              hrest⟩

/-- The first phase ends well and leads to the second, or it stops at the first
file that cannot be written, and what it has written is taken back. -/
theorem stageAll_cases (t : FileTree) (staged : List String) (files : List (String × List UInt8)) :
    (∃ u, t.stageEach files = .ok u ∧
      t.stageAll staged files = u.commitAll (staged ++ files.map Prod.fst)) ∨
    ∃ before file after u e, files = before ++ file :: after ∧ t.stageEach before = .ok u ∧
      t.stageAll staged files =
        ⟨.error (file.1, e), u.discard (staged ++ before.map Prod.fst)⟩ := by
  induction files generalizing t staged with
  | nil => exact .inl ⟨t, rfl, by rw [List.map_nil, List.append_nil]; rfl⟩
  | cons file rest ih =>
      cases hstage : t.stage file.1 file.2 with
      | error e =>
          refine .inr ⟨[], file, rest, t, e, rfl, rfl, ?_⟩
          rw [stageAll_cons, hstage, List.map_nil, List.append_nil]
      | ok next =>
          have hall :
              t.stageAll staged (file :: rest) = next.stageAll (staged ++ [file.1]) rest := by
            rw [stageAll_cons, hstage]
          have heach (files : List (String × List UInt8)) :
              t.stageEach (file :: files) = next.stageEach files := by
            rw [stageEach, List.foldlM_cons, hstage]
            rfl
          rw [hall]
          rcases ih next (staged ++ [file.1]) with
            ⟨u, hrun, hrest⟩ | ⟨before, failed, after, u, e, rfl, hrun, hrest⟩
          · exact .inl ⟨u, (heach rest).trans hrun, by simpa using hrest⟩
          · exact .inr ⟨file :: before, failed, after, u, e, rfl, (heach before).trans hrun,
              by simpa using hrest⟩

/-! ## What the first phase leaves -/

theorem stageEach_cons : t.stageEach (file :: files) = .ok u ↔
      ∃ next, t.stage file.1 file.2 = .ok next ∧ next.stageEach files = .ok u := by
  rw [stageEach, List.foldlM_cons, Except.bind_eq_ok_iff]
  rfl

/-- Only slots beside targets are filled, and no directory comes or goes. -/
theorem stageEach_keeps (h : t.stageEach files = .ok u) :
    t.SameDirectories u ∧
      ∀ l, (∀ file ∈ files, t.stagingSlot? file.1 ≠ some l) → u.get? l = t.get? l := by
  induction files generalizing t with
  | nil =>
      obtain rfl := Except.ok.inj h
      exact ⟨.refl t, fun _ _ => rfl⟩
  | cons file rest ih =>
      obtain ⟨next, hstage, hrest⟩ := stageEach_cons.mp h
      obtain ⟨k, hslot, hnext, hget⟩ := stage_eq_ok hstage
      obtain ⟨hdirectories, hkept⟩ := ih hrest
      refine ⟨hnext.trans hdirectories, ?_⟩
      intro l hl
      obtain ⟨hfirst, hlater⟩ := List.forall_mem_cons.mp hl
      have hne : l ≠ k := fun heq => hfirst (heq ▸ hslot)
      rw [hkept l fun file hfile => hnext.stagingSlot? ▸ hlater file hfile, hget, if_neg hne]

/-- New contents stay beside their target if no later ones are written to the
same slot. -/
theorem stageEach_stored (h : t.stageEach files = .ok u)
    (hdistinct : files.Pairwise fun file later =>
      t.stagingSlot? file.1 ≠ t.stagingSlot? later.1) :
    ∀ file ∈ files, ∃ k, t.stagingSlot? file.1 = some k ∧ u.get? k = some (.file file.2) := by
  induction files generalizing t with
  | nil => simp
  | cons file rest ih =>
      obtain ⟨next, hstage, hrest⟩ := stageEach_cons.mp h
      obtain ⟨k, hslot, hnext, hget⟩ := stage_eq_ok hstage
      obtain ⟨hfirst, hlater⟩ := List.pairwise_cons.mp hdistinct
      simp only [hnext.stagingSlot?] at hslot hfirst hlater ⊢
      refine List.forall_mem_cons.mpr ⟨⟨k, hslot, ?_⟩, ih hrest hlater⟩
      rw [(stageEach_keeps hrest).2 k
        fun later hmem heq => hfirst later hmem (hslot.trans heq.symm),
        hget, if_pos rfl]

theorem stagingSlot?_isSome (h : t.stageEach files = .ok u)
    (hfile : file ∈ files) : ∃ k, t.stagingSlot? file.1 = some k := by
  induction files generalizing t with
  | nil => cases hfile
  | cons first rest ih =>
      obtain ⟨next, hstage, hrest⟩ := stageEach_cons.mp h
      obtain ⟨k, hslot, hnext, -⟩ := stage_eq_ok hstage
      rcases List.mem_cons.mp hfile with rfl | hmem
      · exact ⟨k, hslot⟩
      · rw [hnext.stagingSlot?]
        exact ih hrest hmem

/-- Taking back the first phase only empties slots beside targets. -/
theorem discard_keeps (t : FileTree) (paths : List String) :
    t.SameDirectories (t.discard paths) ∧
      ∀ l, (∀ path ∈ paths, t.stagingSlot? path ≠ some l) →
        (t.discard paths).get? l = t.get? l := by
  induction paths generalizing t with
  | nil => exact ⟨.refl t, fun _ _ => rfl⟩
  | cons path rest ih =>
      cases hremove : t.removeFile (Path.temporary path) with
      -- A temporary file that cannot be removed is left where it is.
      | error e =>
          have hdiscard : t.discard (path :: rest) = t.discard rest := by
            rw [discard, List.foldl_cons, hremove]
            rfl
          rw [hdiscard]
          exact ⟨(ih t).1, fun l hl => (ih t).2 l (List.forall_mem_cons.mp hl).2⟩
      | ok next =>
          have hdiscard : t.discard (path :: rest) = next.discard rest := by
            rw [discard, List.foldl_cons, hremove]
            rfl
          obtain ⟨k, contents, hslot, hget, rfl⟩ := removeFile_eq_ok_iff.mp hremove
          have hk := ne_nil_of_slot? hslot
          have hnext : t.SameDirectories (t.erase k) := sameDirectories_erase hk (by simp [hget])
          obtain ⟨hdirectories, hkept⟩ := ih (t.erase k)
          rw [hdiscard]
          refine ⟨hnext.trans hdirectories, ?_⟩
          intro l hl
          obtain ⟨hfirst, hlater⟩ := List.forall_mem_cons.mp hl
          have hne : l ≠ k := fun heq => hfirst (heq ▸ hslot)
          rw [hkept l fun path hpath => hnext.stagingSlot? ▸ hlater path hpath, get?_erase t hk,
            if_neg hne]

/-! ## What the second phase leaves -/

theorem commitEach_cons :
    t.commitEach (path :: paths) = .ok u ↔
      ∃ next, t.commit path = .ok next ∧ next.commitEach paths = .ok u := by
  rw [commitEach, List.foldlM_cons, Except.bind_eq_ok_iff]
  rfl

/-- Only targets are filled, and only slots beside them are emptied. -/
theorem commitEach_keeps (h : t.commitEach paths = .ok u) :
    t.SameDirectories u ∧
      ∀ l, (∀ path ∈ paths, t.slot? path ≠ some l ∧ t.stagingSlot? path ≠ some l) →
        u.get? l = t.get? l := by
  induction paths generalizing t with
  | nil =>
      obtain rfl := Except.ok.inj h
      exact ⟨.refl t, fun _ _ => rfl⟩
  | cons path rest ih =>
      obtain ⟨next, hcommit, hrest⟩ := commitEach_cons.mp h
      obtain ⟨k, l, contents, hstaging, hslot, -, hnext, hget⟩ := commit_eq_ok hcommit
      obtain ⟨hdirectories, hkept⟩ := ih hrest
      refine ⟨hnext.trans hdirectories, ?_⟩
      intro m hm
      obtain ⟨⟨hfirst, hfirst'⟩, hlater⟩ := List.forall_mem_cons.mp hm
      have hl : m ≠ l := fun heq => hfirst (heq ▸ hslot)
      have hk : m ≠ k := fun heq => hfirst' (heq ▸ hstaging)
      have hothers : ∀ path ∈ rest, next.slot? path ≠ some m ∧ next.stagingSlot? path ≠ some m := by
        intro path hpath
        rw [← hnext.slot?, ← hnext.stagingSlot?]
        exact hlater path hpath
      rw [hkept m hothers, hget, if_neg hl, if_neg hk]

/-- Whether no target is in the slot beside a later one. -/
def StagedApart (t : FileTree) (paths : List String) : Prop :=
  paths.Pairwise fun path later => t.slot? path ≠ t.stagingSlot? later

instance (t : FileTree) (paths : List String) : Decidable (t.StagedApart paths) :=
  inferInstanceAs (Decidable (paths.Pairwise _))

theorem SameDirectories.stagedApart_iff (h : t.SameDirectories u) :
    t.StagedApart paths ↔ u.StagedApart paths := by
  simp only [StagedApart, h.slot?, h.stagingSlot?]

/-- What the second phase leaves of targets that are staged apart: all of them
have slots of their own, and hold what was beside them. -/
structure Committed (t u : FileTree) (paths : List String) : Prop where
  distinct : paths.Pairwise fun path later => t.slot? path ≠ t.slot? later
  staging : paths.Pairwise fun path later => t.stagingSlot? path ≠ t.stagingSlot? later
  stored : ∀ path ∈ paths, ∃ k l contents, t.stagingSlot? path = some k ∧ t.slot? path = some l ∧
    t.get? k = some (.file contents) ∧ u.get? l = some (.file contents)

/-- A second phase that ends well has moved to each target what was beside it,
provided that targets are staged apart. -/
theorem committed_of_commitEach (h : t.commitEach paths = .ok u) (hapart : t.StagedApart paths) :
    t.Committed u paths := by
  induction paths generalizing t with
  | nil => exact ⟨.nil, .nil, by simp⟩
  | cons path rest ih =>
      obtain ⟨next, hcommit, hrest⟩ := commitEach_cons.mp h
      obtain ⟨k, l, contents, hstaging, hslot, hcontents, hnext, hget⟩ := commit_eq_ok hcommit
      obtain ⟨hfirst, hlater⟩ := List.pairwise_cons.mp hapart
      obtain ⟨hdistinct, hstagings, hstored⟩ := ih hrest (hnext.stagedApart_iff.mp hlater)
      simp only [← hnext.slot?, ← hnext.stagingSlot?] at hdistinct hstagings hstored
      -- What a later target will take was beside it before, and not beside this one.
      have hbeside : ∀ later ∈ rest, ∃ k' l' contents', t.stagingSlot? later = some k' ∧
          t.slot? later = some l' ∧ t.get? k' = some (.file contents') ∧
          u.get? l' = some (.file contents') ∧ k ≠ k' := by
        intro later hmem
        obtain ⟨k', l', contents', hstaging', hslot', hcontents', hstored'⟩ := hstored later hmem
        have hne : k' ≠ l := by
          rintro rfl
          exact hfirst later hmem (hslot.trans hstaging'.symm)
        rw [hget, if_neg hne] at hcontents'
        split_ifs at hcontents' with hk
        exact ⟨k', l', contents', hstaging', hslot', hcontents', hstored', Ne.symm hk⟩
      have hslots : ∀ later ∈ rest, t.slot? path ≠ t.slot? later := by
        intro later hmem heq
        obtain ⟨k', l', -, hstaging', hslot', -, -, hne⟩ := hbeside later hmem
        exact hne (slot?_temporary_congr hslot (heq ▸ hslot) hstaging hstaging')
      refine ⟨.cons hslots hdistinct, .cons ?_ hstagings, List.forall_mem_cons.mpr ⟨?_, ?_⟩⟩
      · intro later hmem heq
        obtain ⟨k', -, -, hstaging', -, -, -, hne⟩ := hbeside later hmem
        rw [hstaging, hstaging'] at heq
        exact hne (Option.some.inj heq)
      · refine ⟨k, l, contents, hstaging, hslot, hcontents, ?_⟩
        rw [(commitEach_keeps hrest).2 l, hget, if_pos rfl]
        intro later hmem
        rw [← hnext.slot?, ← hnext.stagingSlot?, ← hslot]
        exact ⟨Ne.symm (hslots later hmem), Ne.symm (hfirst later hmem)⟩
      · intro later hmem
        obtain ⟨k', l', contents', hstaging', hslot', hcontents', hstored', -⟩ := hbeside later hmem
        exact ⟨k', l', contents', hstaging', hslot', hcontents', hstored'⟩

/-- A slot that is filled in the end is a target, or it was filled before and is
beside none of them. -/
theorem commitEach_filled (h : t.commitEach paths = .ok u)
    (hget : u.get? l = some (.file contents)) :
    (∃ path ∈ paths, t.slot? path = some l) ∨
      t.get? l = some (.file contents) ∧ ∀ path ∈ paths, t.stagingSlot? path ≠ some l := by
  induction paths generalizing t with
  | nil =>
      obtain rfl := Except.ok.inj h
      exact .inr ⟨hget, by simp⟩
  | cons path rest ih =>
      obtain ⟨next, hcommit, hrest⟩ := commitEach_cons.mp h
      obtain ⟨k, m, moved, hstaging, hslot, -, hnext, hmoved⟩ := commit_eq_ok hcommit
      rcases ih hrest with ⟨later, hmem, hlater⟩ | ⟨hfilled, hbeside⟩
      · exact .inl ⟨later, List.mem_cons_of_mem _ hmem, hnext.slot?.trans hlater⟩
      · rw [hmoved] at hfilled
        split_ifs at hfilled with hm hk
        · exact .inl ⟨path, List.mem_cons_self, hm ▸ hslot⟩
        · refine .inr ⟨hfilled, List.forall_mem_cons.mpr ⟨?_, ?_⟩⟩
          · rw [hstaging]
            exact fun heq => hk (Option.some.inj heq).symm
          · intro later hmem
            rw [hnext.stagingSlot?]
            exact hbeside later hmem

/-- If all targets have slots of their own and are filled in the end, they were
staged apart. -/
theorem stagedApart_of_filled (h : t.commitEach paths = .ok u)
    (hdistinct : paths.Pairwise fun path later => t.slot? path ≠ t.slot? later)
    (hfilled : ∀ path ∈ paths, ∃ l contents,
      t.slot? path = some l ∧ u.get? l = some (.file contents)) : t.StagedApart paths := by
  induction paths generalizing t with
  | nil => exact .nil
  | cons path rest ih =>
      obtain ⟨next, hcommit, hrest⟩ := commitEach_cons.mp h
      obtain ⟨-, -, -, -, -, -, hnext, -⟩ := commit_eq_ok hcommit
      obtain ⟨hfirst, hlater⟩ := List.pairwise_cons.mp hdistinct
      obtain ⟨⟨l, contents, hslot, hget⟩, hfilled⟩ := List.forall_mem_cons.mp hfilled
      refine .cons ?_ (hnext.stagedApart_iff.mpr (ih hrest ?_ ?_))
      · rcases commitEach_filled hrest hget with ⟨later, hmem, hlater⟩ | ⟨-, hbeside⟩
        · exact absurd (hslot.trans (hnext.slot?.trans hlater).symm) (hfirst later hmem)
        · intro later hmem heq
          exact hbeside later hmem (hnext.stagingSlot? ▸ heq ▸ hslot)
      · simpa only [← hnext.slot?] using hlater
      · simpa only [← hnext.slot?] using hfilled

/-! ## Both phases -/

theorem exists_phases (h : t.replaceAll files = ⟨.ok (), u⟩) :
    ∃ staged, t.stageEach files = .ok staged ∧ staged.commitEach (files.map Prod.fst) = .ok u := by
  rw [replaceAll] at h
  rcases stageAll_cases t [] files with ⟨staged, hstaged, hall⟩ | ⟨_, _, _, _, _, _, _, hall⟩
  · rw [hall, List.nil_append] at h
    rcases commitAll_cases staged (files.map Prod.fst) with
      ⟨left, hrun, hcommitted⟩ | ⟨_, _, _, _, _, _, _, _, hcommitted⟩
    · rw [hcommitted] at h
      obtain ⟨-, rfl⟩ := Outcome.mk.inj h
      exact ⟨staged, hstaged, hrun⟩
    · rw [hcommitted] at h
      cases (Outcome.mk.inj h).1
  · rw [hall] at h
    cases (Outcome.mk.inj h).1

/-- What the second phase has moved to a target is what the first one wrote for
it, also if it has not come to the other targets yet. -/
theorem exists_slot_of_phases (hstaged : t.stageEach files = .ok staged)
    (hdistinct : files.Pairwise fun file later =>
      t.stagingSlot? file.1 ≠ t.stagingSlot? later.1)
    {done : List (String × List UInt8)} (hrun : staged.commitEach (done.map Prod.fst) = .ok u)
    (hapart : t.StagedApart (done.map Prod.fst)) (hdone : file ∈ done)
    (hfile : file ∈ files) : ∃ l, t.slot? file.1 = some l ∧ u.get? l = some (.file file.2) := by
  have hsame := (stageEach_keeps hstaged).1
  obtain ⟨k, l, contents, hstaging, hslot, hget, hget'⟩ :=
    (committed_of_commitEach hrun (hsame.stagedApart_iff.mp hapart)).stored file.1
      (List.mem_map_of_mem hdone)
  obtain ⟨k', hstaging', hstage⟩ := stageEach_stored hstaged hdistinct file hfile
  rw [hsame.stagingSlot?, hstaging] at hstaging'
  obtain rfl := Option.some.inj hstaging'
  obtain rfl := Entry.file.inj (Option.some.inj (hget.symm.trans hstage))
  exact ⟨l, hsame.slot?.trans hslot, hget'⟩

/-- After files were replaced, every target holds its new contents and has a
slot of its own exactly if no target is in the slot beside a later one. -/
theorem replaceAll_stored_iff (h : t.replaceAll files = ⟨.ok (), u⟩) :
    (((files.map Prod.fst).map t.slot?).Nodup ∧ ∀ file ∈ files, u.read file.1 = .ok file.2) ↔
      t.StagedApart (files.map Prod.fst) := by
  obtain ⟨staged, hstaged, hrun⟩ := exists_phases h
  have hsame := (stageEach_keeps hstaged).1
  have hsame' := hsame.trans (commitEach_keeps hrun).1
  constructor
  · rintro ⟨hnodup, hread⟩
    rw [hsame.stagedApart_iff]
    refine stagedApart_of_filled hrun ?_ ?_
    · simpa only [List.Nodup, List.pairwise_map, ← hsame.slot?] using hnodup
    · intro path hpath
      obtain ⟨file, hfile, rfl⟩ := List.mem_map.mp hpath
      obtain ⟨l, hslot, hget⟩ := read_eq_ok_iff.mp (hread file hfile)
      exact ⟨l, file.2, hsame.slot?.symm.trans (hsame'.slot?.trans hslot), hget⟩
  · intro hapart
    obtain ⟨hdistinct, hstagings, -⟩ :=
      committed_of_commitEach hrun (hsame.stagedApart_iff.mp hapart)
    simp only [← hsame.slot?, ← hsame.stagingSlot?, List.pairwise_map] at hdistinct hstagings
    refine ⟨by rwa [List.Nodup, List.pairwise_map, List.pairwise_map], ?_⟩
    intro file hfile
    obtain ⟨l, hslot, hget⟩ := exists_slot_of_phases hstaged hstagings hrun hapart hfile hfile
    exact read_eq_ok_iff.mpr ⟨l, hsame'.slot?.symm.trans hslot, hget⟩

/-- Replacing files changes no directory, whether it ends well or not. -/
theorem sameDirectories_of_replaceAll {result : Except (String × IoError) Unit}
    (h : t.replaceAll files = ⟨result, u⟩) : t.SameDirectories u := by
  obtain rfl : (t.replaceAll files).tree = u := by rw [h]
  rw [replaceAll]
  rcases stageAll_cases t [] files with
    ⟨staged, hstaged, hall⟩ | ⟨_, _, _, staged, _, _, hstaged, hall⟩
  · have hsame := (stageEach_keeps hstaged).1
    rw [hall]
    rcases commitAll_cases staged ([] ++ files.map Prod.fst) with
      ⟨left, hrun, hcommitted⟩ | ⟨_, _, _, left, _, _, hrun, _, hcommitted⟩
    all_goals
      rw [hcommitted]
      exact hsame.trans (commitEach_keeps hrun).1
  · rw [hall]
    exact (stageEach_keeps hstaged).1.trans (discard_keeps _ _).1

def Apart (t : FileTree) (path other : String) : Prop :=
  t.slot? path = none ∨ t.slot? path ≠ t.slot? other

instance (t : FileTree) (path other : String) : Decidable (t.Apart path other) :=
  inferInstanceAs (Decidable (_ ∨ _))

theorem Apart.ne (h : t.Apart path other) (hl : t.slot? path = some l) :
    t.slot? other ≠ some l := by
  rcases h with hnone | hne
  · rw [hl] at hnone
    cases hnone
  · exact fun heq => hne (hl.trans heq.symm)

theorem Apart.symm (h : t.Apart path other) : t.Apart other path := by
  cases hslot : t.slot? other with
  | none => exact .inl hslot
  | some l => exact .inr fun heq => h.ne (heq.symm.trans hslot) hslot

theorem SameDirectories.apart_iff (h : t.SameDirectories u) :
    t.Apart path other ↔ u.Apart path other := by
  simp only [Apart, h.slot?]

/-- Emptying the slots beside some targets again leaves all paths apart from
them as they were. -/
theorem entryAt_of_discard (hstaged : t.stageEach files = .ok staged)
    (hbeside : ∀ file ∈ files, t.Apart path (Path.temporary file.1)) :
    (staged.discard (files.map Prod.fst)).entryAt path = t.entryAt path := by
  obtain ⟨hsame, hkept⟩ := stageEach_keeps hstaged
  obtain ⟨hsame', hkept'⟩ := discard_keeps staged (files.map Prod.fst)
  refine ((hsame.trans hsame').entryAt_eq fun l hl => ?_).symm
  rw [hkept' l, hkept l fun file hfile => (hbeside file hfile).ne hl]
  intro target htarget
  obtain ⟨file, hfile, rfl⟩ := List.mem_map.mp htarget
  rw [← hsame.stagingSlot?]
  exact (hbeside file hfile).ne hl

/-- Moving some targets leaves all paths apart from them and from the slots
beside the staged ones as they were. -/
theorem entryAt_of_commitEach {moved : List (String × List UInt8)}
    (hstaged : t.stageEach files = .ok staged)
    (hrun : staged.commitEach (moved.map Prod.fst) = .ok u) (hmoved : moved ⊆ files)
    (hbeside : ∀ file ∈ files, t.Apart path (Path.temporary file.1))
    (hother : ∀ file ∈ moved, t.Apart path file.1) : u.entryAt path = t.entryAt path := by
  obtain ⟨hsame, hkept⟩ := stageEach_keeps hstaged
  obtain ⟨hsame', hkept'⟩ := commitEach_keeps hrun
  refine ((hsame.trans hsame').entryAt_eq fun l hl => ?_).symm
  rw [hkept' l, hkept l fun file hfile => (hbeside file hfile).ne hl]
  intro target htarget
  obtain ⟨file, hfile, rfl⟩ := List.mem_map.mp htarget
  rw [← hsame.slot?, ← hsame.stagingSlot?]
  exact ⟨(hother file hfile).ne hl, (hbeside file (hmoved hfile)).ne hl⟩

/-- Replacing files leaves all other paths as they were. -/
theorem replaceAll_keeps (h : t.replaceAll files = ⟨.ok (), u⟩)
    (hother : ∀ file ∈ files, t.Apart path file.1 ∧ t.Apart path (Path.temporary file.1)) :
    u.entryAt path = t.entryAt path := by
  obtain ⟨staged, hstaged, hrun⟩ := exists_phases h
  exact entryAt_of_commitEach hstaged hrun (List.Subset.refl files)
    (fun file hfile => (hother file hfile).2) fun file hfile => (hother file hfile).1

/-! ## Failures -/

/-- Where a failure stops: in the first phase, of which nothing is kept, or in
the second, of which all that was done is kept. -/
theorem failure_cases (h : t.replaceAll files = ⟨.error (path, e), u⟩) :
    ∃ before contents after staged, files = before ++ (path, contents) :: after ∧
      (t.stageEach before = .ok staged ∧ u = staged.discard (before.map Prod.fst) ∨
      t.stageEach files = .ok staged ∧ staged.commitEach (before.map Prod.fst) = .ok u ∧
        u.commit path = .error e) := by
  rw [replaceAll] at h
  rcases stageAll_cases t [] files with
    ⟨staged, hstaged, hall⟩ | ⟨before, ⟨failed, contents⟩, after, staged, e', rfl, hstaged, hall⟩
  · rw [hall, List.nil_append] at h
    rcases commitAll_cases staged (files.map Prod.fst) with
      ⟨left, -, hcommitted⟩ | ⟨done, failed, rest, left, e', hpaths, hrun, hfail, hcommitted⟩
    · rw [hcommitted] at h
      cases (Outcome.mk.inj h).1
    · rw [hcommitted] at h
      obtain ⟨herror, rfl⟩ := Outcome.mk.inj h
      obtain ⟨rfl, rfl⟩ := Prod.mk.inj (Except.error.inj herror)
      obtain ⟨before, back, rfl, rfl, hback⟩ := List.map_eq_append_iff.mp hpaths
      obtain ⟨⟨path, contents⟩, after, rfl, rfl, rfl⟩ := List.map_eq_cons_iff.mp hback
      exact ⟨before, contents, after, staged, rfl, .inr ⟨hstaged, hrun, hfail⟩⟩
  · rw [hall, List.nil_append] at h
    obtain ⟨herror, rfl⟩ := Outcome.mk.inj h
    obtain ⟨rfl, -⟩ := Prod.mk.inj (Except.error.inj herror)
    exact ⟨before, contents, after, staged, rfl, .inl ⟨hstaged, rfl⟩⟩

/-- A failure changes no path but the targets before it and those beside the
targets. -/
theorem replaceAll_failed_keeps (h : t.replaceAll files = ⟨.error (path, e), u⟩) :
    ∃ before contents after, files = before ++ (path, contents) :: after ∧
      ∀ other, (∀ file ∈ files, t.Apart other (Path.temporary file.1)) →
        (∀ file ∈ before, t.Apart other file.1) → u.entryAt other = t.entryAt other := by
  obtain ⟨before, contents, after, staged, rfl, hstop⟩ := failure_cases h
  refine ⟨before, contents, after, rfl, fun other hbeside hother => ?_⟩
  rcases hstop with ⟨hstaged, rfl⟩ | ⟨hstaged, hrun, -⟩
  · exact entryAt_of_discard hstaged fun file hfile => hbeside file (List.mem_append_left _ hfile)
  · exact entryAt_of_commitEach hstaged hrun (List.subset_append_left before _) hbeside hother

/-- Whether two targets do not get into each other's way: their new contents are
written to different slots, and neither is in the slot beside the other. -/
structure Independent (t : FileTree) (path other : String) : Prop where
  staging : t.Apart (Path.temporary path) (Path.temporary other)
  first : t.Apart path (Path.temporary other)
  second : t.Apart other (Path.temporary path)

instance (t : FileTree) (path other : String) : Decidable (t.Independent path other) :=
  decidable_of_iff (t.Apart (Path.temporary path) (Path.temporary other) ∧
      t.Apart path (Path.temporary other) ∧ t.Apart other (Path.temporary path))
    ⟨fun h => ⟨h.1, h.2.1, h.2.2⟩, fun h => ⟨h.staging, h.first, h.second⟩⟩

theorem SameDirectories.independent_iff (h : t.SameDirectories u) :
    t.Independent path other ↔ u.Independent path other :=
  ⟨fun hind => ⟨h.apart_iff.mp hind.staging, h.apart_iff.mp hind.first, h.apart_iff.mp hind.second⟩,
    fun hind =>
      ⟨h.apart_iff.mpr hind.staging, h.apart_iff.mpr hind.first, h.apart_iff.mpr hind.second⟩⟩

/-- A file is not beside itself, since the name beside it is longer. -/
theorem apart_temporary (t : FileTree) (path : String) : t.Apart path (Path.temporary path) := by
  unfold Apart
  cases hslot : t.slot? path with
  | none => exact .inl rfl
  | some l => exact .inr (Ne.symm (slot?_temporary_ne hslot))

/-- No target is in the slot beside one, be it the same or another. -/
theorem apart_temporary_of_independent (h : paths.Pairwise t.Independent) {path : String}
    (hpath : path ∈ paths) (hother : other ∈ paths) : t.Apart path (Path.temporary other) := by
  have hsymm : Std.Symm fun p q => t.Apart p (Path.temporary q) ∧ t.Apart q (Path.temporary p) :=
    ⟨fun _ _ => And.symm⟩
  refine (List.Pairwise.forall_of_forall
    (R := fun p q => t.Apart p (Path.temporary q) ∧ t.Apart q (Path.temporary p)) ?_ ?_
    hpath hother).1
  · exact fun p _ => ⟨t.apart_temporary p, t.apart_temporary p⟩
  · exact h.imp fun hind => ⟨hind.first, hind.second⟩

/-- Independent targets that could be staged have slots of their own, and so
have the files beside them. -/
theorem distinct_of_independent (h : t.stageEach files = .ok u)
    (hindependent : (files.map Prod.fst).Pairwise t.Independent) :
    files.Pairwise fun file later =>
      t.stagingSlot? file.1 ≠ t.stagingSlot? later.1 ∧ t.Apart file.1 later.1 := by
  refine (List.pairwise_map.mp hindependent).imp_of_mem ?_
  intro file later hfile hlater hind
  obtain ⟨k, hk⟩ := stagingSlot?_isSome h hfile
  obtain ⟨k', hk'⟩ := stagingSlot?_isSome h hlater
  have hne : t.stagingSlot? later.1 ≠ some k := hind.staging.ne hk
  refine ⟨fun heq => hne (heq ▸ hk), ?_⟩
  unfold Apart
  cases hslot : t.slot? file.1 with
  | none => exact .inl rfl
  | some l =>
      refine .inr fun heq => ?_
      rw [slot?_temporary_congr hslot heq.symm hk hk'] at hne
      exact hne hk'

theorem stagedApart_of_independent (h : t.stageEach files = .ok u)
    (hindependent : (files.map Prod.fst).Pairwise t.Independent) :
    t.StagedApart (files.map Prod.fst) := by
  refine hindependent.imp_of_mem ?_
  intro path later hpath hlater _ heq
  obtain ⟨file, hfile, rfl⟩ := List.mem_map.mp hlater
  obtain ⟨k, hk⟩ := stagingSlot?_isSome h hfile
  exact (apart_temporary_of_independent hindependent hpath hlater).ne (heq.trans hk) hk

/-- The new contents of a target are still beside it when its turn comes, so
only the target itself can be why they cannot be moved. -/
theorem not_replaceable_of_commitEach {before after : List (String × List UInt8)}
    (hindependent : ((before ++ (path, contents) :: after).map Prod.fst).Pairwise t.Independent)
    (hstaged : t.stageEach (before ++ (path, contents) :: after) = .ok staged)
    (hrun : staged.commitEach (before.map Prod.fst) = .ok u)
    (hfail : u.commit path = .error e) : ¬ t.Replaceable path := by
  have hfile : (path, contents) ∈ before ++ (path, contents) :: after := List.mem_append_cons_self
  have hdistinct := distinct_of_independent hstaged hindependent
  have hsame := (stageEach_keeps hstaged).1
  obtain ⟨hsame', hkept'⟩ := commitEach_keeps hrun
  obtain ⟨k, hk, hget⟩ := stageEach_stored hstaged (hdistinct.imp And.left) _ hfile
  rw [(hsame.trans hsame').replaceable_iff]
  refine not_replaceable_of_commit hfail ((hsame.trans hsame').stagingSlot?.symm.trans hk)
    ((hkept' k fun target htarget => ?_).trans hget)
  obtain ⟨other, hother, rfl⟩ := List.mem_map.mp htarget
  rw [← hsame.slot?, ← hsame.stagingSlot?]
  constructor
  · exact (apart_temporary_of_independent hindependent
      (List.mem_map_of_mem (List.mem_append_left _ hother)) (List.mem_map_of_mem hfile)).symm.ne hk
  · intro heq
    exact ((List.pairwise_append.mp hdistinct).2.2 other hother _ List.mem_cons_self).1
      (heq.trans hk.symm)

/-- What a failure of a target leaves: all targets as they were; or, if the
target cannot be replaced and is not the first, new contents in all targets
before it, and it and those behind it as they were. -/
inductive FailureLeaves (t u : FileTree) (files : List (String × List UInt8)) (path : String) :
    Prop where
  | untouched (unchanged : ∀ file ∈ files, u.entryAt file.1 = t.entryAt file.1)
  | stopped {before after : List (String × List UInt8)} {contents : List UInt8}
      (split : files = before ++ (path, contents) :: after) (started : before ≠ [])
      (blocked : ¬ t.Replaceable path)
      (replaced : ∀ file ∈ before, u.entryAt file.1 = some (.file file.2))
      (unchanged : ∀ file ∈ (path, contents) :: after, u.entryAt file.1 = t.entryAt file.1)

/-- Among targets that do not get into each other's way, a failure leaves all as
they were, or stops at one that cannot be replaced after the ones before it. -/
theorem replaceAll_failed (hindependent : (files.map Prod.fst).Pairwise t.Independent)
    (h : t.replaceAll files = ⟨.error (path, e), u⟩) : FailureLeaves t u files path := by
  obtain ⟨before, contents, after, staged, rfl, hstop⟩ := failure_cases h
  have hbeside {file : String × List UInt8} (hfile : file ∈ before ++ (path, contents) :: after) :
      ∀ other ∈ before ++ (path, contents) :: after, t.Apart file.1 (Path.temporary other.1) :=
    fun other hother => apart_temporary_of_independent hindependent (List.mem_map_of_mem hfile)
      (List.mem_map_of_mem hother)
  -- While staging, no target has been touched; later, those before the failed one have been.
  rcases hstop with ⟨hstaged, rfl⟩ | ⟨hstaged, hrun, hfail⟩
  · exact .untouched fun file hfile => entryAt_of_discard hstaged fun other hother =>
      hbeside hfile other (List.mem_append_left _ hother)
  · have hdistinct := distinct_of_independent hstaged hindependent
    have hunchanged : ∀ file ∈ (path, contents) :: after, u.entryAt file.1 = t.entryAt file.1 := by
      intro file hfile
      refine entryAt_of_commitEach hstaged hrun (List.subset_append_left before _)
        (hbeside (List.mem_append_right _ hfile)) fun other hother => ?_
      exact ((List.pairwise_append.mp hdistinct).2.2 other hother file hfile).2.symm
    by_cases hbefore : before = []
    · exact .untouched (by simpa [hbefore] using hunchanged)
    · refine .stopped rfl hbefore
        (not_replaceable_of_commitEach hindependent hstaged hrun hfail) ?_ hunchanged
      intro file hfile
      have hapart := stagedApart_of_independent hstaged hindependent
      rw [List.map_append] at hapart
      obtain ⟨l, hslot, hget⟩ := exists_slot_of_phases hstaged (hdistinct.imp And.left) hrun
        (List.pairwise_append.mp hapart).1 hfile (List.mem_append_left _ hfile)
      have hsame := (stageEach_keeps hstaged).1.trans (commitEach_keeps hrun).1
      exact entryAt_eq_file_iff.mpr ⟨l, hsame.slot?.symm.trans hslot, hget⟩

-- A target beside another is not independent of it: taking back what was staged removes it.
example :
    (replaceAll ⟨[(["x"], .file [1]), (["x.tmp"], .file [2]), (["x.tmp.tmp"], .directory)], []⟩
      [("/x", [3]), ("/x.tmp", [4])]).tree.read "/x.tmp" = .error .notFound := by
  decide +kernel

end BlockLang.FileTree
