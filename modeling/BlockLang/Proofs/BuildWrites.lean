import BlockLang.Project.Build
import BlockLang.Proofs.StagedWrites

/-! # What a build writes

A build makes the directory for the generated files, which keeps all files, and then replaces the
generated files as staged writes do. So what is known of staged writes is known of a build.
-/

namespace BlockLang

namespace FileTree

variable {t u v : FileTree} {path : String}

/-- Whether a path leads to the file that it led to before, or else to one that
was there before. -/
structure KeepsFile (t u : FileTree) (path : String) : Prop where
  kept : ∀ l contents, t.find path = .ok (l, .file contents) →
    u.find path = .ok (l, .file contents)
  known : ∀ l contents, u.find path = .ok (l, .file contents) → t.get? l = some (.file contents)

/-- Making directories keeps every file: a path that leads to one led there
before, or led nowhere. -/
theorem AddsDirectories.keepsFile (h : t.AddsDirectories u) (path : String) :
    t.KeepsFile u path := by
  refine ⟨fun l contents hfind => ?_, fun l contents hfind => ?_⟩
  · obtain ⟨hslot, hget⟩ := find_eq_file_iff.mp hfind
    exact find_eq_file_iff.mpr ⟨h.directories.slot? hslot, (h.files l contents).mpr hget⟩
  · exact (h.files l contents).mp (find_eq_file_iff.mp hfind).2

/-- A path that leads to the same as before keeps the file that it had before
directories were added. -/
theorem AddsDirectories.keepsFile_of_entryAt (h : t.AddsDirectories u) (hsame : u.SameDirectories v)
    (hentry : v.entryAt path = u.entryAt path) : t.KeepsFile v path := by
  have hfind : ∀ l contents, v.find path = .ok (l, .file contents) ↔
      u.find path = .ok (l, .file contents) := by
    intro l contents
    have hiff : v.entryAt path = some (.file contents) ↔
        u.entryAt path = some (.file contents) := by
      rw [hentry]
    rw [entryAt_eq_file_iff, entryAt_eq_file_iff, ← hsame.slot?] at hiff
    rw [find_eq_file_iff, find_eq_file_iff, ← hsame.slot?]
    refine and_congr_right fun hslot => ?_
    simpa [hslot] using hiff
  obtain ⟨hkept, hknown⟩ := h.keepsFile path
  exact ⟨fun l contents ht => (hfind l contents).mpr (hkept l contents ht),
    fun l contents hv => hknown l contents ((hfind l contents).mp hv)⟩

end FileTree

namespace Project

open FileTree

variable {t left : FileTree} {root : String} {c : Config}

def targets (root : String) (c : Config) : List String :=
  Path.join (Path.join root c.outDir) c.serverFile
    :: if c.emitTypes then [Path.join (Path.join root c.outDir) c.typesFile] else []

theorem outputs_paths (root : String) (c : Config) (artifacts : Artifacts) :
    (outputs (Path.join root c.outDir) c artifacts).map Prod.fst = targets root c := by
  unfold outputs targets
  split_ifs <;> rfl

/-- Only the server module can come before another generated file. -/
theorem split_outputs {artifacts : Artifacts} {before after : List (String × List UInt8)}
    {file : String × List UInt8}
    (h : outputs (Path.join root c.outDir) c artifacts = before ++ file :: after)
    (hbefore : before ≠ []) :
    before = [(Path.join (Path.join root c.outDir) c.serverFile, Text.bytes artifacts.server)] ∧
      after = [] ∧
      targets root c = [Path.join (Path.join root c.outDir) c.serverFile, file.1] := by
  obtain ⟨first, before, rfl⟩ := List.exists_cons_of_ne_nil hbefore
  rw [← outputs_paths root c artifacts, h]
  unfold outputs at h
  obtain ⟨rfl, hrest⟩ := List.cons.inj h
  split_ifs at hrest
  · cases before with
    | nil =>
        obtain ⟨rfl, rfl⟩ := List.cons.inj hrest
        exact ⟨rfl, rfl, rfl⟩
    | cons second before => simp at hrest
  · simp at hrest

/-- How a build ends: nothing could be generated, the directory could not be
made, or the generated files were to be replaced. -/
theorem build_cases (t : FileTree) (root : String) (c : Config) :
    (∃ e, compile t root c = .error e ∧ build t root c = (.error e, t)) ∨
    ∃ tree artifacts made, compile t root c = .ok (tree, artifacts) ∧
      made = (t.makeDirectories (Path.join root c.outDir)).tree ∧
      ((∃ e, build t root c = (.error e, made)) ∨
        ∃ result left,
          made.replaceAll (outputs (Path.join root c.outDir) c artifacts) = ⟨result, left⟩ ∧
          build t root c =
            (match result with
              | .error (path, e) => .error (.write path e)
              | .ok () => .ok (report tree (targets root c)), left)) := by
  delta build
  cases hcompile : compile t root c with
  | error e => exact .inl ⟨e, rfl, rfl⟩
  | ok generated =>
      obtain ⟨tree, artifacts⟩ := generated
      refine .inr ⟨tree, artifacts, _, rfl, rfl, ?_⟩
      dsimp only
      cases hmade : t.makeDirectories (Path.join root c.outDir) with
      | mk result made =>
      dsimp only
      cases result with
      | error e => exact .inl ⟨_, rfl⟩
      | ok _ =>
          dsimp only
          cases hreplaced : made.replaceAll (outputs (Path.join root c.outDir) c artifacts) with
          | mk result left =>
          refine .inr ⟨result, left, rfl, ?_⟩
          cases result with
          | error failure => rfl
          | ok _ =>
              dsimp only
              rw [outputs_paths]

/-- A build that fails has replaced no generated file, or it has replaced the
server module because nothing can be moved to the path of the type
declarations. -/
theorem build_failed {e : BuildError} (hindependent : (targets root c).Pairwise left.Independent)
    (h : build t root c = (.error e, left)) :
    (∀ path ∈ targets root c, t.KeepsFile left path) ∨
    ∃ server types error tree artifacts, targets root c = [server, types] ∧
      e = .write types error ∧ ¬ left.Replaceable types ∧
      compile t root c = .ok (tree, artifacts) ∧
      left.read server = .ok (Text.bytes artifacts.server) ∧ t.KeepsFile left types := by
  -- A failure comes before any write unless it is the replacing of the files that fails.
  rcases build_cases t root c with
    ⟨e', -, hbuild⟩ | ⟨tree, artifacts, made, hcompile, hmade, ⟨e', hbuild⟩ |
      ⟨result, left', hreplace, hbuild⟩⟩
  all_goals
    rw [hbuild] at h
    obtain ⟨herror, rfl⟩ := Prod.mk.inj h
  · exact .inl fun path _ => (AddsDirectories.refl t).keepsFile path
  · rw [hmade]
    exact .inl fun path _ => (t.makeDirectories_adds _).keepsFile path
  · have hadds : t.AddsDirectories made := hmade ▸ t.makeDirectories_adds _
    have hsame := sameDirectories_of_replaceAll hreplace
    cases result with
    | ok _ => cases herror
    | error failure =>
        obtain ⟨path, error⟩ := failure
        obtain rfl := Except.error.inj herror
        have hind : ((outputs (Path.join root c.outDir) c artifacts).map Prod.fst).Pairwise
            made.Independent := by
          rw [outputs_paths]
          exact hindependent.imp hsame.independent_iff.mpr
        cases replaceAll_failed hind hreplace with
        | untouched unchanged =>
            refine .inl fun path hpath => ?_
            rw [← outputs_paths root c artifacts] at hpath
            obtain ⟨file, hfile, rfl⟩ := List.mem_map.mp hpath
            exact hadds.keepsFile_of_entryAt hsame (unchanged file hfile)
        | stopped split started blocked replaced unchanged =>
            obtain ⟨hbefore, -, hpaths⟩ := split_outputs split started
            have hserver := replaced
              (Path.join (Path.join root c.outDir) c.serverFile, Text.bytes artifacts.server)
              (by rw [hbefore]; exact List.mem_singleton_self _)
            have htypes := unchanged _ List.mem_cons_self
            exact .inr ⟨_, path, error, tree, artifacts, hpaths, rfl,
              mt hsame.replaceable_iff.mpr blocked, hcompile,
              read_eq_ok_iff.mpr (entryAt_eq_file_iff.mp hserver),
              hadds.keepsFile_of_entryAt hsame htypes⟩

/-- What a build leaves that ends well: the staged writes of the generated
files, in a tree to which only directories were added. -/
theorem build_done {r : Report} (h : build t root c = (.ok r, left)) :
    ∃ tree artifacts made, compile t root c = .ok (tree, artifacts) ∧ t.AddsDirectories made ∧
      made.replaceAll (outputs (Path.join root c.outDir) c artifacts) = ⟨.ok (), left⟩ := by
  rcases build_cases t root c with
    ⟨e, -, hbuild⟩ | ⟨tree, artifacts, made, hcompile, hmade, ⟨e, hbuild⟩ |
      ⟨result, left', hreplace, hbuild⟩⟩
  all_goals
    rw [hbuild] at h
    obtain ⟨hresult, rfl⟩ := Prod.mk.inj h
  · cases hresult
  · cases hresult
  · cases result with
    | error failure => cases hresult
    | ok _ => exact ⟨tree, artifacts, made, hcompile, hmade ▸ t.makeDirectories_adds _, hreplace⟩

/-- A build that ends well has stored both generated files, each in a slot of
its own, if and only if the server module does not take the slot that the type
declarations are staged in. -/
theorem build_stored_iff {r : Report} (h : build t root c = (.ok r, left)) :
    ∃ tree artifacts, compile t root c = .ok (tree, artifacts) ∧
      (((targets root c).map left.slot?).Nodup ∧
        (∀ file ∈ outputs (Path.join root c.outDir) c artifacts, left.read file.1 = .ok file.2) ↔
        left.StagedApart (targets root c)) := by
  obtain ⟨tree, artifacts, made, hcompile, -, hreplace⟩ := build_done h
  have hsame := sameDirectories_of_replaceAll hreplace
  have hslot : made.slot? = left.slot? := funext fun _ => hsame.slot?
  have hiff := replaceAll_stored_iff hreplace
  rw [outputs_paths, hslot, hsame.stagedApart_iff] at hiff
  exact ⟨tree, artifacts, hcompile, hiff⟩

/-- A build that ends well keeps every file that is neither a generated one nor
staged, however it is reached. -/
theorem build_keeps {r : Report} (h : build t root c = (.ok r, left)) {path : String}
    (hother : ∀ target ∈ targets root c,
      left.Apart path target ∧ left.Apart path (Path.temporary target)) :
    t.KeepsFile left path := by
  obtain ⟨tree, artifacts, made, -, hadds, hreplace⟩ := build_done h
  have hsame := sameDirectories_of_replaceAll hreplace
  refine hadds.keepsFile_of_entryAt hsame (replaceAll_keeps hreplace fun file hfile => ?_)
  have htarget : file.1 ∈ targets root c := by
    rw [← outputs_paths root c artifacts]
    exact List.mem_map_of_mem hfile
  exact (hother file.1 htarget).imp hsame.apart_iff.mpr hsame.apart_iff.mpr

/-! ## What a failure leaves -/

/-- What a failure leaves. It changes no path but the targets before it and
those beside the targets. If no target gets into the way of another, all are as
they were, unless one behind the first cannot be replaced; then exactly those
before it are replaced. A build that fails has replaced neither generated file,
unless nothing can be moved to the path of the type declarations; then it has
replaced the server module. -/
theorem failed_write_leaves (t left : FileTree) :
    (∀ (files : List (String × List UInt8)) (path : String) (e : IoError),
      t.replaceAll files = ⟨.error (path, e), left⟩ →
      (∃ before contents after, files = before ++ (path, contents) :: after ∧
        ∀ other, (∀ file ∈ files, t.Apart other (Path.temporary file.1)) →
          (∀ file ∈ before, t.Apart other file.1) → left.entryAt other = t.entryAt other) ∧
      ((files.map Prod.fst).Pairwise t.Independent → FailureLeaves t left files path)) ∧
    ∀ (root : String) (c : Config) (e : BuildError),
      (targets root c).Pairwise left.Independent → build t root c = (.error e, left) →
      (∀ path ∈ targets root c, t.KeepsFile left path) ∨
      ∃ server types error tree artifacts, targets root c = [server, types] ∧
        e = .write types error ∧ ¬ left.Replaceable types ∧
        compile t root c = .ok (tree, artifacts) ∧
        left.read server = .ok (Text.bytes artifacts.server) ∧ t.KeepsFile left types :=
  ⟨fun _ _ _ h => ⟨replaceAll_failed_keeps h, fun hind => replaceAll_failed hind h⟩,
    fun _ _ _ => build_failed⟩

def blockedTypes : FileTree :=
  ⟨[(["main.bs"], .file []), (["generated"], .directory),
    (["generated", "server.js"], .file [0x6F, 0x6C, 0x64]),
    (["generated", "types.d.ts"], .directory)], []⟩

/-- The first of two files is replaced though the second cannot be, and a build
that fails leaves a new server module in the place of the old one. -/
theorem failed_write_leaves_new_server :
    (∃ left, FileTree.replaceAll ⟨[(["a"], .file [1]), (["b"], .directory)], []⟩
        [("/a", [2]), ("/b", [3])] = ⟨.error ("/b", .isDirectory), left⟩ ∧
      FailureLeaves ⟨[(["a"], .file [1]), (["b"], .directory)], []⟩ left
        [("/a", [2]), ("/b", [3])] "/b" ∧ left.read "/a" = .ok [2]) ∧
    ∃ left, build blockedTypes "/" {} =
        (.error (.write "/generated/types.d.ts" .isDirectory), left) ∧
      left.read "/generated/server.js" ≠ blockedTypes.read "/generated/server.js" ∧
      ∃ tree artifacts, compile blockedTypes "/" {} = .ok (tree, artifacts) ∧
        left.read "/generated/server.js" = .ok (Text.bytes artifacts.server) := by
  constructor
  · have hindependent : ["/a", "/b"].Pairwise
        (FileTree.mk [(["a"], .file [1]), (["b"], .directory)] []).Independent := by
      decide +kernel
    exact ⟨_, rfl, ((failed_write_leaves _ _).1 _ _ _ rfl).2 hindependent, rfl⟩
  · have hresult : (build blockedTypes "/" {}).1 =
        .error (.write "/generated/types.d.ts" .isDirectory) := by decide +kernel
    have hindependent : (targets "/" {}).Pairwise (build blockedTypes "/" {}).2.Independent := by
      decide +kernel
    have hnew : (build blockedTypes "/" {}).2.read "/generated/server.js" ≠
        .ok [0x6F, 0x6C, 0x64] := by decide +kernel
    have htargets : targets "/" {} = ["/generated/server.js", "/generated/types.d.ts"] := by
      decide +kernel
    have hold : blockedTypes.find "/generated/server.js" =
        .ok (["generated", "server.js"], .file [0x6F, 0x6C, 0x64]) := by decide +kernel
    cases hbuild : build blockedTypes "/" {} with
    | mk result left =>
    rw [hbuild] at hresult hindependent hnew
    cases hresult
    refine ⟨left, rfl, (read_eq_ok_iff.mpr ⟨_, find_eq_file_iff.mp hold⟩).symm ▸ hnew, ?_⟩
    rcases (failed_write_leaves _ _).2 _ _ _ hindependent hbuild with
      hkept | ⟨server, types, error, tree, artifacts, hpaths, -, -, hcompile, hread, -⟩
    · have hfind := (hkept _ (htargets ▸ List.mem_cons_self)).kept _ _ hold
      exact absurd (read_eq_ok_iff.mpr ⟨_, find_eq_file_iff.mp hfind⟩) hnew
    · obtain rfl := (List.cons.inj (htargets.symm.trans hpaths)).1
      exact ⟨tree, artifacts, hcompile, hread⟩

/-! ## What a success stores -/

/-- What a success stores. Exactly if no target is in the slot that a later one
is staged in, the targets are slots of their own and each holds its contents;
every other slot is as it was. -/
theorem written_iff_stagedApart (t left : FileTree) :
    (∀ files : List (String × List UInt8),
      t.replaceAll files = ⟨.ok (), left⟩ →
      (((files.map Prod.fst).map t.slot?).Nodup ∧ (∀ file ∈ files, left.read file.1 = .ok file.2) ↔
        t.StagedApart (files.map Prod.fst)) ∧
      ∀ path, (∀ file ∈ files, t.Apart path file.1 ∧ t.Apart path (Path.temporary file.1)) →
        left.entryAt path = t.entryAt path) ∧
    ∀ (root : String) (c : Config) (r : Report),
      build t root c = (.ok r, left) →
      (∃ tree artifacts, compile t root c = .ok (tree, artifacts) ∧
        (((targets root c).map left.slot?).Nodup ∧
          (∀ file ∈ outputs (Path.join root c.outDir) c artifacts, left.read file.1 = .ok file.2) ↔
          left.StagedApart (targets root c))) ∧
      ∀ path, (∀ target ∈ targets root c,
          left.Apart path target ∧ left.Apart path (Path.temporary target)) →
        t.KeepsFile left path :=
  ⟨fun _ h => ⟨replaceAll_stored_iff h, fun _ => replaceAll_keeps h⟩,
    fun _ _ _ h => ⟨build_stored_iff h, fun _ => build_keeps h⟩⟩

def emptyProject : FileTree := ⟨[(["main.bs"], .file [])], []⟩

/-- A file and the one beside it are stored in this order. Under the standard
names a build stores both generated files. It does not if the server module has
the name that the type declarations are staged under. -/
theorem written_iff_stagedApart_beside :
    (∃ left, FileTree.replaceAll ⟨[], []⟩ [("/x", [1]), ("/x.tmp", [2])] = ⟨.ok (), left⟩ ∧
      ∀ file ∈ [("/x", [1]), ("/x.tmp", [2])], left.read file.1 = .ok file.2) ∧
    (∃ r left tree artifacts, build emptyProject "/" {} = (.ok r, left) ∧
      compile emptyProject "/" {} = .ok (tree, artifacts) ∧
      ∀ file ∈ outputs (Path.join "/" "generated") {} artifacts, left.read file.1 = .ok file.2) ∧
    ∃ r left tree artifacts,
      build emptyProject "/" { serverFile := "types.d.ts.tmp" } = (.ok r, left) ∧
      compile emptyProject "/" { serverFile := "types.d.ts.tmp" } = .ok (tree, artifacts) ∧
      ¬ ∀ file ∈ outputs (Path.join "/" "generated") { serverFile := "types.d.ts.tmp" } artifacts,
        left.read file.1 = .ok file.2 := by
  refine ⟨?_, ?_, ?_⟩
  · have happart : FileTree.StagedApart ⟨[], []⟩ ["/x", "/x.tmp"] := by decide +kernel
    exact ⟨_, rfl, (((written_iff_stagedApart _ _).1 _ rfl).1.mpr happart).2⟩
  · have hresult : (build emptyProject "/" {}).1 = .ok ⟨0, 0, 0, 0, targets "/" {}⟩ := by
      decide +kernel
    have happart : (build emptyProject "/" {}).2.StagedApart (targets "/" {}) := by decide +kernel
    cases hbuild : build emptyProject "/" {} with
    | mk result left =>
    rw [hbuild] at hresult happart
    cases hresult
    obtain ⟨⟨tree, artifacts, hcompile, hstored⟩, -⟩ :=
      (written_iff_stagedApart _ _).2 _ _ _ hbuild
    exact ⟨_, left, tree, artifacts, rfl, hcompile, (hstored.mpr happart).2⟩
  · -- The types file is staged under the very name the server file takes, and is overwritten.
    generalize hc : ({ serverFile := "types.d.ts.tmp" } : Config) = c
    have hresult : (build emptyProject "/" c).1 = .ok ⟨0, 0, 0, 0, targets "/" c⟩ := by
      subst hc; decide +kernel
    have hslots : ((targets "/" c).map (build emptyProject "/" c).2.slot?).Nodup := by
      subst hc; decide +kernel
    have hlost : ¬ (build emptyProject "/" c).2.StagedApart (targets "/" c) := by
      subst hc; decide +kernel
    cases hbuild : build emptyProject "/" c with
    | mk result left =>
    rw [hbuild] at hresult hslots hlost
    cases hresult
    obtain ⟨⟨tree, artifacts, hcompile, hstored⟩, -⟩ :=
      (written_iff_stagedApart _ _).2 _ _ _ hbuild
    refine ⟨_, left, tree, artifacts, rfl, hcompile, fun hread => hlost (hstored.mp ⟨hslots, ?_⟩)⟩
    subst hc
    exact hread

end Project

end BlockLang
