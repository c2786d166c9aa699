import BlockLang.Proofs.BuildWrites
import Mathlib.Data.Set.Basic

/-! # Building again

A second build starts from what the first one left. It finds all directories made, reads the same
sources, unless the first build has written over one, and so writes the same files. That it leaves
nothing else is shown for both builds at once: the trees they start from differ only where files are
staged or stored, and every write makes them agree at one location more.
-/

namespace BlockLang

namespace FileTree

variable {t t' u : FileTree} {path : String} {paths passed : List String} {k l : Location}
  {contents : List UInt8} {files : List (String × List UInt8)} {places places' : Set Location}

/-! ## Trees that agree outside of some locations -/

/-- Whether two trees have the same directories and differ at most at some
locations. -/
structure AgreeOutside (places : Set Location) (t u : FileTree) : Prop where
  directories : t.SameDirectories u
  entries : ∀ l, l ∉ places → t.get? l = u.get? l

theorem AgreeOutside.mono (h : AgreeOutside places t u) (hsubset : places ⊆ places') :
    AgreeOutside places' t u :=
  ⟨h.directories, fun l hl => h.entries l fun hmem => hl (hsubset hmem)⟩

/-- What is staged in both trees is the same, so the slot beside the target is
no place of difference any more. -/
theorem AgreeOutside.stage (h : AgreeOutside places t u)
    (hstage : t.stage path contents = .ok t') (hk : t.stagingSlot? path = some k) :
    ∃ u', u.stage path contents = .ok u' ∧ AgreeOutside (places \ {k}) t' u' := by
  obtain ⟨k', hslot, hdirectory, rfl⟩ := create_eq_ok_iff.mp hstage
  obtain rfl := Option.some.inj (hk.symm.trans hslot)
  have hk' := ne_nil_of_slot? hslot
  have hdirectory' : u.get? k ≠ some .directory := by
    rwa [Ne, ← h.directories.get?_eq_directory_iff]
  refine ⟨u.set k (.file contents),
    create_eq_ok_iff.mpr ⟨k, h.directories.slot? ▸ hslot, hdirectory', rfl⟩, ?_, ?_⟩
  · exact ((sameDirectories_set hk' hdirectory contents).symm.trans h.directories).trans
      (sameDirectories_set hk' hdirectory' contents)
  · intro l hl
    rw [get?_set t hk', get?_set u hk']
    split_ifs with heq
    · rfl
    · exact h.entries l fun hmem => hl ⟨hmem, heq⟩

/-- What is moved to a target is the same if what was staged for it is, and then
the target holds the same in both trees. -/
theorem AgreeOutside.commit (h : AgreeOutside places t u) (hcommit : t.commit path = .ok t')
    (hk : t.stagingSlot? path = some k) (hl : t.slot? path = some l) (hplaces : k ∉ places) :
    ∃ u', u.commit path = .ok u' ∧ AgreeOutside (places \ {l}) t' u' := by
  obtain ⟨k', l', contents, hk', hl', hget, hdirectory, rfl⟩ := rename_eq_ok_iff.mp hcommit
  obtain rfl := Option.some.inj (hk.symm.trans hk')
  obtain rfl := Option.some.inj (hl.symm.trans hl')
  have hdirectory' : u.get? l ≠ some .directory := by
    rwa [Ne, ← h.directories.get?_eq_directory_iff]
  have hcommit' : u.commit path = .ok ((u.erase k).set l (.file contents)) :=
    rename_eq_ok_iff.mpr ⟨k, l, contents, h.directories.slot? ▸ hk', h.directories.slot? ▸ hl,
      h.entries k hplaces ▸ hget, hdirectory', rfl⟩
  obtain ⟨-, -, -, -, -, -, hsame, -⟩ := commit_eq_ok hcommit
  obtain ⟨-, -, -, -, -, -, hsame', -⟩ := commit_eq_ok hcommit'
  refine ⟨_, hcommit', (hsame.symm.trans h.directories).trans hsame', ?_⟩
  intro m hm
  rw [get?_set _ (ne_nil_of_slot? hl), get?_set _ (ne_nil_of_slot? hl),
    get?_erase t (ne_nil_of_slot? hk), get?_erase u (ne_nil_of_slot? hk)]
  split_ifs with hml hmk
  · rfl
  · rfl
  · exact h.entries m fun hmem => hm ⟨hmem, hml⟩

/-! ## Staged writes in two trees -/

/-- The first phase runs alike in both trees, and leaves them different at most
where it has written nothing. -/
theorem AgreeOutside.stageEach (h : AgreeOutside places t u) (hrun : t.stageEach files = .ok t') :
    ∃ u', u.stageEach files = .ok u' ∧
      AgreeOutside {l ∈ places | ∀ file ∈ files, t.stagingSlot? file.1 ≠ some l} t' u' := by
  induction files generalizing t u places with
  | nil =>
      obtain rfl := Except.ok.inj hrun
      exact ⟨u, rfl, h.mono fun l hl => ⟨hl, by simp⟩⟩
  | cons file rest ih =>
      obtain ⟨next, hstage, hrest⟩ := stageEach_cons.mp hrun
      obtain ⟨k, hk, hsame, -⟩ := stage_eq_ok hstage
      obtain ⟨next', hstage', hnext⟩ := h.stage hstage hk
      obtain ⟨u', hrest', hdone⟩ := ih hnext hrest
      refine ⟨u', stageEach_cons.mpr ⟨next', hstage', hrest'⟩, hdone.mono ?_⟩
      rintro l ⟨⟨hl, hne⟩, hlater⟩
      refine ⟨hl, List.forall_mem_cons.mpr ⟨?_, ?_⟩⟩
      · intro heq
        exact hne (Option.some.inj (heq.symm.trans hk))
      · intro later hmem
        rw [hsame.stagingSlot?]
        exact hlater later hmem

/-- The second phase runs alike in both trees if they agree beside all targets,
and the targets agree in the end. -/
theorem AgreeOutside.commitEach (h : AgreeOutside places t u) (hrun : t.commitEach paths = .ok t')
    (hstaged : ∀ path ∈ paths, ∀ k ∈ places, t.stagingSlot? path ≠ some k) :
    ∃ u', u.commitEach paths = .ok u' ∧
      AgreeOutside {l ∈ places | ∀ path ∈ paths, t.slot? path ≠ some l} t' u' := by
  induction paths generalizing t u places with
  | nil =>
      obtain rfl := Except.ok.inj hrun
      exact ⟨u, rfl, h.mono fun l hl => ⟨hl, by simp⟩⟩
  | cons path rest ih =>
      obtain ⟨next, hcommit, hrest⟩ := commitEach_cons.mp hrun
      obtain ⟨k, l, -, hk, hl, -, hsame, -⟩ := commit_eq_ok hcommit
      obtain ⟨hfirst, hlater⟩ := List.forall_mem_cons.mp hstaged
      obtain ⟨next', hcommit', hnext⟩ := h.commit hcommit hk hl fun hmem => hfirst k hmem hk
      obtain ⟨u', hrest', hdone⟩ := ih hnext hrest fun later hmem m hm => by
        rw [← hsame.stagingSlot?]
        exact hlater later hmem m hm.1
      refine ⟨u', commitEach_cons.mpr ⟨next', hcommit', hrest'⟩, hdone.mono ?_⟩
      rintro m ⟨⟨hm, hne⟩, hothers⟩
      refine ⟨hm, List.forall_mem_cons.mpr ⟨?_, ?_⟩⟩
      · intro heq
        exact hne (Option.some.inj (heq.symm.trans hl))
      · intro later hmem
        rw [hsame.slot?]
        exact hothers later hmem

theorem stageAll_of_stageEach {staged : FileTree} (h : t.stageEach files = .ok staged)
    (before : List String) :
    t.stageAll before files = staged.commitAll (before ++ files.map Prod.fst) := by
  induction files generalizing t before with
  | nil =>
      obtain rfl := Except.ok.inj h
      rw [List.map_nil, List.append_nil]
      rfl
  | cons file rest ih =>
      obtain ⟨next, hstage, hrest⟩ := stageEach_cons.mp h
      have hpaths : before ++ (file :: rest).map Prod.fst =
          before ++ [file.1] ++ rest.map Prod.fst := List.append_cons ..
      rw [stageAll_cons, hstage, hpaths]
      exact ih hrest _

theorem commitAll_of_commitEach (h : t.commitEach paths = .ok u) :
    t.commitAll paths = ⟨.ok (), u⟩ := by
  induction paths generalizing t with
  | nil =>
      obtain rfl := Except.ok.inj h
      rfl
  | cons path rest ih =>
      obtain ⟨next, hcommit, hrest⟩ := commitEach_cons.mp h
      rw [commitAll_cons, hcommit]
      exact ih hrest

def written (t : FileTree) (files : List (String × List UInt8)) : Set Location :=
  {l | ∃ file ∈ files, t.stagingSlot? file.1 = some l ∨ t.slot? file.1 = some l}

/-- Replacing files changes nothing but what is stored where they are staged and
stored. -/
theorem agreeOutside_of_replaceAll (h : t.replaceAll files = ⟨.ok (), u⟩) :
    AgreeOutside (t.written files) t u := by
  obtain ⟨staged, hstaged, hrun⟩ := exists_phases h
  obtain ⟨hsame, hkept⟩ := stageEach_keeps hstaged
  obtain ⟨hsame', hkept'⟩ := commitEach_keeps hrun
  refine ⟨hsame.trans hsame', fun l hl => ?_⟩
  have hfiles : ∀ file ∈ files, t.slot? file.1 ≠ some l ∧ t.stagingSlot? file.1 ≠ some l :=
    fun file hfile => ⟨fun heq => hl ⟨file, hfile, .inr heq⟩, fun heq => hl ⟨file, hfile, .inl heq⟩⟩
  rw [hkept' l, hkept l fun file hfile => (hfiles file hfile).2]
  intro path hpath
  obtain ⟨file, hfile, rfl⟩ := List.mem_map.mp hpath
  rw [← hsame.slot?, ← hsame.stagingSlot?]
  exact hfiles file hfile

structure SameEntries (t u : FileTree) : Prop where
  workingDirectory : t.workingDirectory = u.workingDirectory
  entries : ∀ l, t.get? l = u.get? l

/-- Files that were replaced can be replaced by the same again, and this changes
nothing. -/
theorem replaceAll_again (h : t.replaceAll files = ⟨.ok (), u⟩) :
    ∃ again, u.replaceAll files = ⟨.ok (), again⟩ ∧ u.SameEntries again := by
  obtain ⟨staged, hstaged, hrun⟩ := exists_phases h
  have hsame := (stageEach_keeps hstaged).1
  -- The first replacement runs from `t` to `u`, and the second beside it from `u` to `again`.
  obtain ⟨staged', hstaged', hagree⟩ := (agreeOutside_of_replaceAll h).stageEach hstaged
  have hnone : ∀ path ∈ files.map Prod.fst, ∀ k ∈ {l ∈ t.written files |
      ∀ file ∈ files, t.stagingSlot? file.1 ≠ some l}, staged.stagingSlot? path ≠ some k := by
    rintro path hpath k ⟨-, hk⟩
    obtain ⟨file, hfile, rfl⟩ := List.mem_map.mp hpath
    rw [← hsame.stagingSlot?]
    exact hk file hfile
  obtain ⟨again, hrun', hdone⟩ := hagree.commitEach hrun hnone
  refine ⟨again, ?_, hdone.directories.1.workingDirectory, fun l => hdone.entries l ?_⟩
  · rw [replaceAll, stageAll_of_stageEach hstaged', List.nil_append,
      commitAll_of_commitEach hrun']
  · rintro ⟨⟨⟨file, hfile, hslot⟩, hstaging⟩, htarget⟩
    rcases hslot with hslot | hslot
    · exact hstaging file hfile hslot
    · exact htarget file.1 (List.mem_map_of_mem hfile) (hsame.slot? ▸ hslot)

/-! ## Directories that are there -/

theorem isDirectory_iff : t.isDirectory path = true ↔ ∃ l, t.find path = .ok (l, .directory) := by
  unfold isDirectory
  split
  next l hfind => simp [hfind]
  next hfind => simpa using fun l hl => hfind l hl

theorem DirectoriesIn.isDirectory (h : t.DirectoriesIn u) (hdirectory : t.isDirectory path = true) :
    u.isDirectory path = true := by
  obtain ⟨l, hfind⟩ := isDirectory_iff.mp hdirectory
  exact isDirectory_iff.mpr ⟨l, h.find_directory hfind⟩

theorem isDirectory_of_makeDirectory (h : t.makeDirectory path = .ok u) :
    u.isDirectory path = true := by
  have hadds := makeDirectory_adds h
  obtain ⟨⟨directory, last⟩, hparent, h⟩ := Except.bind_eq_ok_iff.mp h
  match last with
  | .here => cases h
  | .above => cases h
  | .name name slash =>
      obtain ⟨child, hchild, h⟩ := Except.bind_eq_ok_iff.mp h
      obtain ⟨hlimit, rfl⟩ := child?_eq_ok_iff.mp hchild
      split at h
      next => cases h
      next =>
        obtain rfl := Except.ok.inj h
        have hget :=
          t.get?_set (l := directory ++ [name]) (by simp) .directory (directory ++ [name])
        rw [if_pos rfl] at hget
        refine isDirectory_iff.mpr ⟨directory ++ [name], ?_⟩
        refine Except.bind_eq_ok_iff.mpr ⟨_, hadds.directories.parent hparent, ?_⟩
        refine Except.bind_eq_ok_iff.mpr ⟨_, child?_of_le hlimit, ?_⟩
        rw [hget]
        rfl

/-- A directory that is there cannot be made, and the error says why. -/
theorem makeDirectory_of_isDirectory (h : t.isDirectory path = true) :
    t.makeDirectory path = .error .alreadyExists := by
  obtain ⟨l, hfind⟩ := isDirectory_iff.mp h
  obtain ⟨⟨directory, last⟩, hparent, hfind⟩ := Except.bind_eq_ok_iff.mp hfind
  unfold makeDirectory
  rw [hparent]
  match last with
  | .here => rfl
  | .above => rfl
  | .name name slash =>
      obtain ⟨child, hchild, hfind⟩ := Except.bind_eq_ok_iff.mp hfind
      cases child with
      | none => cases hfind
      | some e =>
          change (t.child? directory name >>= _) = _
          rw [hchild]
          rfl

theorem isDirectory_makeEach (h : t.makeEach paths = ⟨.ok (), u⟩)
    (hpath : t.isDirectory path = true) : u.isDirectory path = true := by
  have hadds := t.makeEach_adds paths
  rw [h] at hadds
  exact hadds.directories.isDirectory hpath

/-- Of directories that were made one after another, each is there in the end,
whether it was made or found. -/
theorem isDirectory_of_makeEach (h : t.makeEach paths = ⟨.ok (), u⟩) :
    ∀ path ∈ paths, u.isDirectory path = true := by
  induction paths generalizing t with
  | nil => simp
  | cons path rest ih =>
      unfold makeEach at h
      split at h
      next made hmade =>
        exact List.forall_mem_cons.mpr
          ⟨isDirectory_makeEach h (isDirectory_of_makeDirectory hmade), ih h⟩
      next =>
        split_ifs at h with hthere
        · exact List.forall_mem_cons.mpr ⟨isDirectory_makeEach h hthere.2, ih h⟩
        · cases (Outcome.mk.inj h).1

/-- The innermost directory and all those that were passed on the way to one
that could be made are there in the end. -/
theorem isDirectory_of_makeFrom (h : t.makeFrom passed paths = ⟨.ok (), u⟩) :
    ∀ path ∈ paths.head?.toList ++ passed, u.isDirectory path = true := by
  induction paths generalizing passed with
  | nil => exact isDirectory_of_makeEach h
  | cons path rest ih =>
      unfold makeFrom at h
      split at h
      next made hmade =>
        exact List.forall_mem_cons.mpr
          ⟨isDirectory_makeEach h (isDirectory_of_makeDirectory hmade), isDirectory_of_makeEach h⟩
      next =>
        split_ifs at h with hmissing hthere
        · exact fun other hother => ih h other (List.mem_append_right _ hother)
        · exact List.forall_mem_cons.mpr
            ⟨isDirectory_makeEach h hthere.2, isDirectory_of_makeEach h⟩
        · cases (Outcome.mk.inj h).1

/-- Making directories that were made before changes nothing, also if other
directories have been added to them. -/
theorem makeDirectories_again (h : t.makeDirectories path = ⟨.ok (), t'⟩)
    (hdirectories : t'.DirectoriesIn u) : u.makeDirectories path = ⟨.ok (), u⟩ := by
  have hmade := isDirectory_of_makeFrom h
  unfold makeDirectories
  generalize ancestors (path.length + 1) path = paths at hmade ⊢
  cases paths with
  | nil => rfl
  | cons first rest =>
      have hfirst := hdirectories.isDirectory (hmade first (by simp))
      unfold makeFrom
      rw [makeDirectory_of_isDirectory hfirst]
      simp [hfirst, makeEach]

end FileTree

/-! ## Loading from a changed tree -/

namespace Modules

open FileTree

variable {t u : FileTree} {root entry first path : String} {depth : Nat} {way : List String}
  {loaded loaded' : Loaded}

/-- The paths that are followed when an entry is loaded: its own, those of the
files that it reaches, and those that such files import. -/
inductive Follows (t : FileTree) (root entry : String) : String → Prop where
  | entry : Follows t root entry (withSourceExtension entry)
  | file {first path : String} (start : entryTarget t entry = .ok first)
      (reached : Reaches t root first path) : Follows t root entry path
  | importing {first path : String} {tree : Tree} {i : Import}
      (start : entryTarget t entry = .ok first) (reached : Reaches t root first path)
      (read : readTree t path = .ok tree) (listed : i ∈ tree.imports) :
      Follows t root entry (importPath root path i.path)

def IsSource (t : FileTree) (root entry : String) (l : Location) : Prop :=
  ∃ path contents, Follows t root entry path ∧ t.find path = .ok (l, .file contents)

/-- Whether all that is found on the way from an entry is found in another tree
as well. -/
structure Keeps (t u : FileTree) (root entry : String) : Prop where
  directories : t.DirectoriesIn u
  sources : ∀ path l contents, Follows t root entry path → t.find path = .ok (l, .file contents) →
    u.find path = .ok (l, .file contents)

/-- A path that is followed keeps its name, by which a file is known to be
loaded already. -/
theorem Keeps.canonical {target : String} (h : Keeps t u root entry)
    (hpath : Follows t root entry path) (hcanonical : t.canonical path = .ok target) :
    u.canonical path = .ok target := by
  obtain ⟨⟨l, e⟩, hfind, htarget⟩ := Except.map_eq_ok_iff.mp hcanonical
  refine Except.map_eq_ok_iff.mpr ⟨(l, e), ?_, htarget⟩
  cases e with
  | directory => exact h.directories.find_directory hfind
  | file contents => exact h.sources path l contents hpath hfind

theorem Keeps.entryTarget (h : Keeps t u root entry) (hfirst : entryTarget t entry = .ok first) :
    Modules.entryTarget u entry = .ok first :=
  Except.mapError_eq_ok_iff.mpr (h.canonical .entry (Except.mapError_eq_ok_iff.mp hfirst))

/-- An import leads to the same file as before, for both what it is found by and
what is found are kept. -/
theorem Keeps.importTarget {tree : Tree} {i : Import} {target : String}
    (h : Keeps t u root entry) (hfirst : Modules.entryTarget t entry = .ok first)
    (hreached : Reaches t root first path) (hread : readTree t path = .ok tree)
    (hi : i ∈ tree.imports) (htarget : importTarget t root path i.path = .ok target) :
    Modules.importTarget u root path i.path = .ok target := by
  unfold Modules.importTarget at htarget ⊢
  dsimp only at htarget ⊢
  split at htarget
  next hcanonical =>
    rw [h.canonical (.importing hfirst hreached hread hi) hcanonical]
    exact htarget
  next => cases htarget
  next => cases htarget

theorem Keeps.readTree {tree : Tree} (h : Keeps t u root entry)
    (hpath : Follows t root entry path) (hread : readTree t path = .ok tree) :
    Modules.readTree u path = .ok tree := by
  have hfile : ∀ source, t.readText path = .ok source → u.readText path = .ok source := by
    intro source hsource
    obtain ⟨contents, hcontents, htext⟩ := Except.bind_eq_ok_iff.mp hsource
    obtain ⟨l, hslot⟩ := read_eq_ok_iff.mp hcontents
    have hfind := h.sources path l contents hpath (find_eq_file_iff.mpr hslot)
    exact Except.bind_eq_ok_iff.mpr
      ⟨contents, read_eq_ok_iff.mpr ⟨l, find_eq_file_iff.mp hfind⟩, htext⟩
  unfold Modules.readTree at hread ⊢
  split at hread
  next => cases hread
  next source hsource =>
    rw [hfile source hsource]
    exact hread

/-- What is loaded of files that are kept is loaded again. -/
theorem Keeps.load (h : Keeps t u root entry) (hfirst : Modules.entryTarget t entry = .ok first)
    (hreached : Reaches t root first path)
    (hload : load t root depth way loaded path = .ok loaded') :
    Modules.load u root depth way loaded path = .ok loaded' := by
  induction depth generalizing way loaded loaded' path with
  | zero => exact hload
  | succ depth ih =>
      obtain ⟨hway, hcases⟩ := load_eq_ok_iff.mp hload
      refine load_eq_ok_iff.mpr ⟨hway, hcases.imp_right ?_⟩
      rintro ⟨hnew, tree, hread, himports⟩
      refine ⟨hnew, tree, h.readTree (.file hfirst hreached) hread, ?_⟩
      refine List.foldlM_of_steps himports ?_
      intro i hi before after himport
      obtain ⟨target, htarget, hafter⟩ := Except.bind_eq_ok_iff.mp himport
      have hnext : Reaches t root first target := hreached.tail ⟨tree, hread, i, hi, htarget⟩
      exact Except.bind_eq_ok_iff.mpr
        ⟨target, h.importTarget hfirst hreached hread hi htarget, ih hnext hafter⟩

/-- The tree of an entry is that of another tree of files that keeps what is
found, however the rest of it has changed. -/
theorem Keeps.loadTree {tree : Tree} (h : Keeps t u root entry)
    (hload : Tree.load t entry root = .ok tree) : Tree.load u entry root = .ok tree := by
  obtain ⟨first, hfirst⟩ := Tree.exists_entryTarget hload
  have hfirst' := h.entryTarget hfirst
  rw [Tree.load_of_entryTarget hfirst] at hload
  rw [Tree.load_of_entryTarget hfirst']
  obtain ⟨loaded, hloaded, htree⟩ := Except.map_eq_ok_iff.mp hload
  refine Except.map_eq_ok_iff.mpr ⟨loaded, ?_, htree⟩
  -- The limits differ with the numbers of entries, and neither is reached.
  have hlimit := Nat.le_max_left (wayLimit t) (wayLimit u)
  have hlimit' := Nat.le_max_right (wayLimit t) (wayLimit u)
  rw [← load_of_wayLimit_le (entryTarget_mem hfirst) hlimit] at hloaded
  rw [← load_of_wayLimit_le (entryTarget_mem hfirst') hlimit']
  exact h.load hfirst .refl hloaded

end Modules

/-! ## Builds -/

namespace Project

open FileTree

variable {t left : FileTree} {root : String} {c : Config} {r : Report}

/-- The steps of a build that ends well: the sources are compiled, the directory
is made, and the files are replaced. -/
theorem build_eq_ok_iff : build t root c = (.ok r, left) ↔ ∃ tree artifacts made,
    compile t root c = .ok (tree, artifacts) ∧
    t.makeDirectories (Path.join root c.outDir) = ⟨.ok (), made⟩ ∧
    made.replaceAll (outputs (Path.join root c.outDir) c artifacts) = ⟨.ok (), left⟩ ∧
    r = report tree (targets root c) := by
  delta build
  cases hcompile : compile t root c with
  | error e => simp
  | ok generated =>
      obtain ⟨tree, artifacts⟩ := generated
      dsimp only
      cases hmade : t.makeDirectories (Path.join root c.outDir) with
      | mk result made =>
      cases result with
      | error e => simp
      | ok _ =>
          dsimp only
          constructor
          · intro h
            cases hreplace : made.replaceAll (outputs (Path.join root c.outDir) c artifacts) with
            | mk result left' =>
            rw [hreplace] at h
            cases result with
            | error failure => cases (Prod.mk.inj h).1
            | ok _ =>
                obtain ⟨hreport, rfl⟩ := Prod.mk.inj h
                rw [outputs_paths] at hreport
                exact ⟨tree, artifacts, made, rfl, rfl, hreplace, (Except.ok.inj hreport).symm⟩
          · rintro ⟨tree', artifacts', made', htree, hmade', hreplace, rfl⟩
            obtain ⟨rfl, rfl⟩ := Prod.mk.inj (Except.ok.inj htree)
            obtain ⟨-, rfl⟩ := Outcome.mk.inj hmade'
            rw [hreplace, outputs_paths]

/-- Whether no generated file is stored or staged in the place of a source, once
the directory for them is made. -/
def SparesSources (t : FileTree) (root : String) (c : Config) : Prop :=
  ∀ l, Modules.IsSource t root (Path.join root c.entry) l → ∀ target ∈ targets root c,
    (t.makeDirectories (Path.join root c.outDir)).tree.slot? target ≠ some l ∧
    (t.makeDirectories (Path.join root c.outDir)).tree.slot? (Path.temporary target) ≠ some l

/-- A build that spares its sources keeps all that is found when they are
loaded, as it touches nothing but its own files. -/
theorem keeps_of_build {artifacts : Artifacts} {made : FileTree}
    (hsources : SparesSources t root c)
    (hmade : t.makeDirectories (Path.join root c.outDir) = ⟨.ok (), made⟩)
    (hreplace : made.replaceAll (outputs (Path.join root c.outDir) c artifacts) =
      ⟨.ok (), left⟩) :
    Modules.Keeps t left root (Path.join root c.entry) := by
  have hadds := t.makeDirectories_adds (Path.join root c.outDir)
  rw [hmade] at hadds
  have hagree := agreeOutside_of_replaceAll hreplace
  have hdirectories : t.DirectoriesIn left := hadds.directories.trans hagree.directories.1
  refine ⟨hdirectories, ?_⟩
  intro path l contents hfollows hfind
  have hnot : l ∉ made.written (outputs (Path.join root c.outDir) c artifacts) := by
    rintro ⟨file, hfile, hwritten⟩
    have htarget : file.1 ∈ targets root c := by
      rw [← outputs_paths root c artifacts]
      exact List.mem_map_of_mem hfile
    obtain ⟨hstored, hstaged⟩ := hsources l ⟨path, contents, hfollows, hfind⟩ file.1 htarget
    rw [hmade] at hstored hstaged
    exact hwritten.elim hstaged hstored
  obtain ⟨hslot, hget⟩ := find_eq_file_iff.mp hfind
  refine find_eq_file_iff.mpr ⟨hdirectories.slot? hslot, ?_⟩
  rw [← hagree.entries l hnot]
  exact (hadds.files l contents).mpr hget

/-- A build that ended well ends well again, with the same report, and leaves
all files and directories as they are, unless a generated file is stored or
staged in the place of a source. -/
theorem build_again (h : build t root c = (.ok r, left)) (hsources : SparesSources t root c) :
    ∃ again, build left root c = (.ok r, again) ∧ left.SameEntries again := by
  obtain ⟨tree, artifacts, made, hcompile, hmade, hreplace, rfl⟩ := build_eq_ok_iff.mp h
  have hkeeps := keeps_of_build hsources hmade hreplace
  have hcompile' : compile left root c = .ok (tree, artifacts) := by
    obtain ⟨tree', hload, hemit⟩ := Except.bind_eq_ok_iff.mp hcompile
    have hload' := hkeeps.loadTree (Except.mapError_eq_ok_iff.mp hload)
    exact Except.bind_eq_ok_iff.mpr ⟨tree', Except.mapError_eq_ok_iff.mpr hload', hemit⟩
  have hmade' := makeDirectories_again hmade (sameDirectories_of_replaceAll hreplace).1
  obtain ⟨again, hreplace', hsame⟩ := replaceAll_again hreplace
  exact ⟨again, build_eq_ok_iff.mpr ⟨tree, artifacts, left, hcompile', hmade', hreplace', rfl⟩,
    hsame⟩

def importingProject : FileTree :=
  ⟨[(["main.bs"], .file (Text.bytes "import \"lib\"")),
    (["lib.bs"], .file (Text.bytes "data A { }"))], []⟩

/-- The standard names of generated files lead nowhere near the two sources. -/
theorem sparesSources_importingProject : SparesSources importingProject "/" {} := by
  rintro l ⟨path, contents, -, hfind⟩
  have hget := (find_eq_file_iff.mp hfind).2
  have hl : l = ["main.bs"] ∨ l = ["lib.bs"] := by
    by_contra hother
    obtain ⟨hmain, hlib⟩ := not_or.mp hother
    have hnone : importingProject.entries.lookup l = none := by
      rw [importingProject, lookup_entry, if_neg hmain, lookup_entry, if_neg hlib, List.lookup_nil]
    rw [FileTree.get?, hnone] at hget
    split at hget <;> cases hget
  have htargets : ∀ target ∈ targets "/" {}, ∀ l ∈ [["main.bs"], ["lib.bs"]],
      (importingProject.makeDirectories (Path.join "/" "generated")).tree.slot? target ≠ some l ∧
      (importingProject.makeDirectories (Path.join "/" "generated")).tree.slot?
        (Path.temporary target) ≠ some l := by
    decide +kernel
  exact fun target htarget => htargets target htarget l (by simpa using hl)

/-- The first build makes the directory for the generated files, the second
finds it. The report and all files are the same. -/
theorem build_again_importing : ∃ r left again,
    build importingProject "/" {} = (.ok r, left) ∧ r.schemas = 1 ∧
    importingProject.isDirectory "/generated" = false ∧
    build left "/" {} = (.ok r, again) ∧ left.SameEntries again := by
  have hresult : (build importingProject "/" {}).1 = .ok ⟨1, 0, 0, 0, targets "/" {}⟩ := by
    decide +kernel
  cases hbuild : build importingProject "/" {} with
  | mk result left =>
  rw [hbuild] at hresult
  cases hresult
  obtain ⟨again, hagain, hsame⟩ := build_again hbuild sparesSources_importingProject
  exact ⟨_, left, again, rfl, rfl, rfl, hagain, hsame⟩

end Project

end BlockLang
