import BlockLang.Proofs.Loading
import Mathlib.Data.List.Chain
import Mathlib.Data.List.Infix
import Mathlib.Data.List.Nodup
import Mathlib.Data.List.Perm.Subperm
import Mathlib.Logic.Relation

/-! # Import cycles

A cycle is reported exactly where the imports of the files that an entry reaches have one. The
search keeps the files on its way apart from those it is done with: the latter are closed under
imports and lie on no cycle. The way never holds a file twice, so it ends before its limit.
-/

namespace BlockLang

/-! ## Where paths lead -/

namespace FileTree

variable {t : FileTree}

/-- The locations that a path can lead to: those above the working directory,
and those that have an entry. -/
def places (t : FileTree) : List Location := t.workingDirectory.inits ++ t.entries.map Prod.fst

def Reached (t : FileTree) (l : Location) : Prop := ∀ k, k <+: l → k ∈ t.places

variable {l : Location}

theorem Reached.above {k : Location} (h : t.Reached l) (hk : k <+: l) : t.Reached k :=
  fun _ hj => h _ (hj.trans hk)

theorem reached_workingDirectory (t : FileTree) : t.Reached t.workingDirectory :=
  fun _ hk => List.mem_append_left _ ((List.mem_inits _ _).mpr hk)

theorem reached_root (t : FileTree) : t.Reached [] :=
  t.reached_workingDirectory.above List.nil_prefix

/-- An entry of a directory that was reached is a place, since the tree lists
it. -/
theorem Reached.child {name : String} {e : Entry} (h : t.Reached l)
    (hget : t.get? (l ++ [name]) = some e) : t.Reached (l ++ [name]) := by
  intro k hk
  rcases List.prefix_concat_iff.mp hk with rfl | hk
  · rw [get?, if_neg (by simp)] at hget
    obtain ⟨before, after, hentries, -⟩ := List.lookup_eq_some_iff.mp hget
    refine List.mem_append_right _ (List.mem_map.mpr ⟨(l ++ [name], e), ?_, rfl⟩)
    rw [hentries]
    exact List.mem_append_cons_self
  · exact h k hk

/-- A directory is asked for a child by a name that is short enough, and gives
what stands there, which may be nothing. -/
theorem child?_eq_ok_iff {name : String} {e : Option Entry} :
    t.child? l name = .ok e ↔ name.utf8ByteSize ≤ nameLimit ∧ t.get? (l ++ [name]) = e := by
  unfold child?
  split_ifs with hlimit
  · simp [Nat.not_le.mpr hlimit]
  · simp [Nat.le_of_not_lt hlimit]

theorem enter_reached {l' : Location} {segment : String} (h : t.enter l segment = .ok l')
    (hl : t.Reached l) : t.Reached l' := by
  unfold enter at h
  split_ifs at h
  · exact Except.ok.inj h ▸ hl
  · exact Except.ok.inj h ▸ hl.above (List.dropLast_prefix l)
  · split at h
    · cases h
    · cases h
    · cases h
    next hchild =>
      obtain rfl := Except.ok.inj h
      exact hl.child (child?_eq_ok_iff.mp hchild).2

theorem enterAll_reached {l' : Location} {segments : List String}
    (h : t.enterAll l segments = .ok l') (hl : t.Reached l) : t.Reached l' := by
  refine (List.foldlM_ok (Q := fun _ _ => True) h hl ?_).1
  intro segment _ k k' hk henter
  exact ⟨enter_reached henter hk, trivial, fun _ _ => trivial⟩

theorem parent_reached {path : String} {last : Last}
    (h : t.parent path = .ok (l, last)) : t.Reached l := by
  unfold parent at h
  split_ifs at h
  split at h
  · obtain ⟨rfl, -⟩ := Prod.mk.inj (Except.ok.inj h)
    exact t.reached_root
  · obtain ⟨directory, henter, hlast⟩ := Except.map_eq_ok_iff.mp h
    obtain ⟨rfl, -⟩ := Prod.mk.inj hlast
    refine enterAll_reached henter ?_
    unfold origin
    split
    · exact t.reached_root
    · exact t.reached_workingDirectory

/-- What a path leads to is among the places, so there are only finitely many
files to come to. -/
theorem find_reached {path : String} {e : Entry} (h : t.find path = .ok (l, e)) : t.Reached l := by
  obtain ⟨⟨directory, last⟩, hparent, h⟩ := Except.bind_eq_ok_iff.mp h
  have hdirectory := parent_reached hparent
  cases last with
  | here =>
      obtain ⟨rfl, -⟩ := Prod.mk.inj (Except.ok.inj h)
      exact hdirectory
  | above =>
      obtain ⟨rfl, -⟩ := Prod.mk.inj (Except.ok.inj h)
      exact hdirectory.above (List.dropLast_prefix directory)
  | name name slash =>
      obtain ⟨entry, hchild, h⟩ := Except.bind_eq_ok_iff.mp h
      have hget := (child?_eq_ok_iff.mp hchild).2
      cases entry with
      | none => cases h
      | some entry =>
          cases entry with
          | file contents =>
              simp only at h
              split_ifs at h
              obtain ⟨rfl, -⟩ := Prod.mk.inj (Except.ok.inj h)
              exact hdirectory.child hget
          | directory =>
              obtain ⟨rfl, -⟩ := Prod.mk.inj (Except.ok.inj h)
              exact hdirectory.child hget

/-- The paths that stand for the locations that a path can lead to. -/
def placePaths (t : FileTree) : List String := t.places.map Location.path

/-- Canonical paths are names of places. -/
theorem canonical_mem_placePaths {path target : String} (h : t.canonical path = .ok target) :
    target ∈ t.placePaths := by
  obtain ⟨⟨l, e⟩, hfind, rfl⟩ := Except.map_eq_ok_iff.mp h
  exact List.mem_map.mpr ⟨l, find_reached hfind l List.prefix_rfl, rfl⟩

theorem length_placePaths_lt (t : FileTree) : t.placePaths.length < Modules.wayLimit t := by
  simp only [placePaths, places, Modules.wayLimit, List.length_map, List.length_append,
    List.length_inits]
  omega

end FileTree

namespace Modules

open Relation

variable {t : FileTree} {root path : String} {depth : Nat} {way : List String}
  {loaded loaded' : Loaded}

/-! ## The import graph -/

def Imports (t : FileTree) (root path target : String) : Prop :=
  ∃ tree, readTree t path = .ok tree ∧
    ∃ i ∈ tree.imports, importTarget t root path i.path = .ok target

def Reaches (t : FileTree) (root : String) : String → String → Prop :=
  ReflTransGen (Imports t root)

def OnCycle (t : FileTree) (root path : String) : Prop := TransGen (Imports t root) path path

/-- Whether a file is read and all its imports lead somewhere. -/
def Resolves (t : FileTree) (root path : String) : Prop :=
  ∃ tree, readTree t path = .ok tree ∧
    ∀ i ∈ tree.imports, ∃ target, importTarget t root path i.path = .ok target

/-- A cycle of imports among the files that a file reaches, with its first file
again at the end. No other file is in it twice. -/
structure ImportCycle (t : FileTree) (root entry : String) (cycle : List String) : Prop where
  length : 2 ≤ cycle.length
  closed : cycle.head? = cycle.getLast?
  distinct : cycle.dropLast.Nodup
  reached : ∀ path ∈ cycle, Reaches t root entry path
  imports : cycle.IsChain (Imports t root)

theorem importTarget_mem {importer target : String}
    (h : importTarget t root importer path = .ok target) : target ∈ t.placePaths := by
  unfold importTarget at h
  simp only at h
  split at h
  next hcanonical =>
    obtain rfl := Except.ok.inj h
    exact FileTree.canonical_mem_placePaths hcanonical
  · cases h
  · cases h

theorem entryTarget_mem {entry target : String} (h : entryTarget t entry = .ok target) :
    target ∈ t.placePaths :=
  FileTree.canonical_mem_placePaths (Except.mapError_eq_ok_iff.mp h)

/-- A way that holds no file twice has at most as many files as there are
places. -/
theorem length_le_placePaths (hnodup : way.Nodup) (hway : ∀ p ∈ way, p ∈ t.placePaths) :
    way.length ≤ t.placePaths.length :=
  (List.subperm_of_subset hnodup hway).length_le

/-! ## Files that the search is done with -/

/-- Whether some files resolve, with all that they import among them, and lie on
no cycle. -/
structure Settled (t : FileTree) (root : String) (done : String → Prop) : Prop where
  resolves : ∀ p, done p → Resolves t root p
  closed : ∀ p q, done p → Imports t root p q → done q
  acyclic : ∀ p, done p → ¬ OnCycle t root p

theorem Settled.reaches {done : String → Prop} (h : Settled t root done) {p q : String}
    (hp : done p) (hreaches : Reaches t root p q) : done q := by
  induction hreaches with
  | refl => exact hp
  | tail _ himport ih => exact h.closed _ _ ih himport

/-- A file that resolves and imports settled files only is settled with them,
for a cycle through it would lead through one of these. -/
theorem Settled.insert {done : String → Prop} (h : Settled t root done) (hnew : ¬ done path)
    (hresolves : Resolves t root path) (himports : ∀ q, Imports t root path q → done q) :
    Settled t root fun p => done p ∨ p = path where
  resolves := by
    rintro p (hp | rfl)
    · exact h.resolves p hp
    · exact hresolves
  closed := by
    rintro p q (hp | rfl) himport
    · exact .inl (h.closed p q hp himport)
    · exact .inl (himports q himport)
  acyclic := by
    rintro p (hp | rfl) hcycle
    · exact h.acyclic p hp hcycle
    · -- A way back would stay among the settled files, which the new one is not.
      obtain ⟨q, himport, hback⟩ := TransGen.head'_iff.mp hcycle
      exact hnew (h.reaches (himports q himport) hback)

def done (way : List String) (loaded : Loaded) (path : String) : Prop :=
  path ∈ loaded.paths ∧ path ∉ way

theorem done_concat {tree : Tree} (hpath : path ∉ loaded.paths) :
    done (way ++ [path]) (loaded ++ [(path, tree)]) = done way loaded := by
  funext p
  by_cases hp : p = path
  · subst hp
    simp [done, hpath]
  · simp [done, Loaded.paths, hp]

/-- A file that leaves the way is done with, and no other file becomes so. -/
theorem done_of_leave (hway : path ∉ way) (hpath : path ∈ loaded.paths) :
    done way loaded = fun p => done (way ++ [path]) loaded p ∨ p = path := by
  funext p
  by_cases hp : p = path
  · subst hp
    simp [done, hway, hpath]
  · simp [done, hp]

/-- A file leaves the way settled once all its imports are. -/
theorem Settled.leave {tree : Tree} (h : Settled t root (done (way ++ [path]) loaded))
    (hway : path ∉ way) (hpath : path ∈ loaded.paths) (hread : readTree t path = .ok tree)
    (himports : ∀ i ∈ tree.imports, ∃ target, importTarget t root path i.path = .ok target ∧
      done (way ++ [path]) loaded target) :
    Settled t root (done way loaded) := by
  rw [done_of_leave hway hpath]
  refine h.insert (by simp [done]) ⟨tree, hread, ?_⟩ ?_
  · intro i hi
    obtain ⟨target, htarget, -⟩ := himports i hi
    exact ⟨target, htarget⟩
  · rintro q ⟨tree', hread', i, hi, htarget⟩
    obtain rfl := Except.ok.inj (hread.symm.trans hread')
    obtain ⟨target, htarget', hdone⟩ := himports i hi
    obtain rfl := Except.ok.inj (htarget.symm.trans htarget')
    exact hdone

/-- Whether a search can stand at a file: the way holds no file twice, all its
files are canonical, and it is short enough for the depth that is left. -/
structure OnWay (t : FileTree) (depth : Nat) (way : List String) (path : String) : Prop where
  nodup : way.Nodup
  places : ∀ p ∈ way, p ∈ t.placePaths
  target : path ∈ t.placePaths
  limit : t.placePaths.length < depth + way.length

theorem OnWay.depth_pos (h : OnWay t depth way path) : 0 < depth := by
  have hlength := length_le_placePaths h.nodup h.places
  have hlimit := h.limit
  omega

/-- Following an import keeps the search where it can stand, with the importer
on the way and one step less of depth. -/
theorem OnWay.follow {importer target : String} {i : Import} (h : OnWay t (depth + 1) way importer)
    (hway : importer ∉ way) (htarget : importTarget t root importer i.path = .ok target) :
    OnWay t depth (way ++ [importer]) target where
  nodup := List.concat_eq_append ▸ h.nodup.concat hway
  places := List.forall_mem_append.mpr ⟨h.places, by simpa using h.target⟩
  target := importTarget_mem htarget
  limit := by
    have hlimit := h.limit
    rw [List.length_append, List.length_singleton]
    omega

/-- A search that ends without an error is done with its file, and all it is
done with is settled. -/
theorem load_settled (h : load t root depth way loaded path = .ok loaded')
    (hon : OnWay t depth way path) (hsettled : Settled t root (done way loaded)) :
    Settled t root (done way loaded') ∧ done way loaded' path ∧
      ∀ p ∈ loaded.paths, p ∈ loaded'.paths := by
  -- The limit leaves no search without depth, so the induction has only its step.
  induction depth generalizing way loaded path loaded' with
  | zero => exact absurd hon.depth_pos (Nat.lt_irrefl 0)
  | succ depth ih =>
      obtain ⟨hway, ⟨hpath, rfl⟩ | ⟨hpath, tree, hread, hfold⟩⟩ := load_eq_ok_iff.mp h
      · exact ⟨hsettled, ⟨hpath, hway⟩, fun p hp => hp⟩
      · -- Each import that was followed leads to a file that the search is done with.
        have hfollowed := List.foldlM_ok
          (P := fun l => Settled t root (done (way ++ [path]) l) ∧
            ∀ p ∈ Loaded.paths (loaded ++ [(path, tree)]), p ∈ l.paths)
          (Q := fun i l => ∃ target, importTarget t root path i.path = .ok target ∧
            done (way ++ [path]) l target)
          hfold ⟨by rwa [done_concat hpath], fun p hp => hp⟩ ?_
        · obtain ⟨⟨hbelow, hpaths⟩, himports, -⟩ := hfollowed
          have hloaded : path ∈ loaded'.paths := hpaths path (by simp [Loaded.paths])
          refine ⟨hbelow.leave hway hloaded hread himports, ⟨hloaded, hway⟩, ?_⟩
          intro p hp
          apply hpaths
          rw [Loaded.paths, List.map_append]
          exact List.mem_append_left _ hp
        · rintro i - mid next ⟨hmid, hpaths⟩ hnext
          obtain ⟨target, htarget, hload⟩ := Except.bind_eq_ok_iff.mp hnext
          obtain ⟨hsettled', hdone, hmore⟩ := ih hload (hon.follow hway htarget) hmid
          refine ⟨⟨hsettled', fun p hp => hmore p (hpaths p hp)⟩, ⟨target, htarget, hdone⟩, ?_⟩
          rintro i' ⟨target', htarget', hdone'⟩
          exact ⟨target', htarget', hmore _ hdone'.1, hdone'.2⟩

/-! ## Errors -/

theorem readTree_ne_circular (cycle : List String) :
    readTree t path ≠ .error (.circularImport cycle) := by
  unfold readTree
  split
  · simp
  · cases Tree.ofSource _ <;> simp [Except.mapError]

theorem importTarget_ne_circular (importer : String) (cycle : List String) :
    importTarget t root importer path ≠ .error (.circularImport cycle) := by
  unfold importTarget
  simp only
  split <;> simp

/-- Where the error of a search comes from: the file is on the way, it does not
resolve, or one of its imports has the error. -/
theorem load_eq_error {e : ResolveError} (h : load t root (depth + 1) way loaded path = .error e) :
    (path ∈ way ∧ e = .circularImport (way.dropWhile (· ≠ path) ++ [path])) ∨
      path ∉ way ∧ ((¬ Resolves t root path ∧ ∀ cycle, e ≠ .circularImport cycle) ∨
        ∃ mid target, Imports t root path target ∧
          load t root depth (way ++ [path]) mid target = .error e) := by
  rw [load_succ] at h
  split_ifs at h with hway
  · exact .inl ⟨hway, (Except.error.inj h).symm⟩
  · refine .inr ⟨hway, ?_⟩
    rcases Except.bind_eq_error_iff.mp h with hread | ⟨tree, hread, hfold⟩
    · refine .inl ⟨?_, ?_⟩
      · rintro ⟨tree, htree, -⟩
        rw [hread] at htree
        cases htree
      · rintro cycle rfl
        exact readTree_ne_circular cycle hread
    · obtain ⟨i, hi, mid, hstep⟩ := List.exists_of_foldlM_error hfold
      rcases Except.bind_eq_error_iff.mp hstep with htarget | ⟨target, htarget, hload⟩
      · refine .inl ⟨?_, ?_⟩
        · rintro ⟨tree', htree, hresolves⟩
          obtain rfl := Except.ok.inj (hread.symm.trans htree)
          obtain ⟨target, htarget'⟩ := hresolves i hi
          rw [htarget] at htarget'
          cases htarget'
        · rintro cycle rfl
          exact importTarget_ne_circular path cycle htarget
      · exact .inr ⟨mid, target, ⟨tree, hread, i, hi, htarget⟩, hload⟩

/-- A file that is met again on the way closes a cycle with the files behind
it. -/
theorem importCycle_of_mem {entry : String} (hmem : path ∈ way) (hnodup : way.Nodup)
    (hchain : (way ++ [path]).IsChain (Imports t root))
    (hreached : ∀ p ∈ way ++ [path], Reaches t root entry p) :
    ImportCycle t root entry (way.dropWhile (· ≠ path) ++ [path]) := by
  obtain ⟨before, rest, rfl, hbefore⟩ := List.eq_append_cons_of_mem hmem
  have hpass : ∀ p ∈ before, decide (p ≠ path) = true :=
    fun p hp => decide_eq_true (ne_of_mem_of_not_mem hp hbefore)
  have hdrop : (before ++ path :: rest).dropWhile (· ≠ path) = path :: rest := by
    rw [List.dropWhile_append_of_pos hpass, List.dropWhile_cons_of_neg (by simp)]
  have hsuffix : path :: rest ++ [path] <:+ before ++ path :: rest ++ [path] :=
    ⟨before, by simp⟩
  rw [hdrop]
  refine ⟨by simp, ?_, ?_, fun p hp => hreached p (hsuffix.subset hp), hchain.suffix hsuffix⟩
  · rw [List.getLast?_concat]
    rfl
  · rw [List.dropLast_concat]
    exact hnodup.sublist (List.sublist_append_right before _)

/-- What is reported as a cycle is one, by induction on the depth with the way
as a chain of imports. -/
theorem load_importCycle {entry : String} {cycle : List String}
    (h : load t root depth way loaded path = .error (.circularImport cycle))
    (hnodup : way.Nodup) (hchain : (way ++ [path]).IsChain (Imports t root))
    (hreached : ∀ p ∈ way ++ [path], Reaches t root entry p) :
    ImportCycle t root entry cycle := by
  induction depth generalizing way loaded path with
  | zero => cases h
  | succ depth ih =>
      rcases load_eq_error h with ⟨hmem, hcycle⟩ | ⟨hway, ⟨-, hne⟩ | ⟨mid, target, himport, hload⟩⟩
      · obtain rfl := ResolveError.circularImport.inj hcycle
        exact importCycle_of_mem hmem hnodup hchain hreached
      · exact absurd rfl (hne cycle)
      · have hpath : Reaches t root entry path := hreached path (by simp)
        refine ih hload (List.concat_eq_append ▸ hnodup.concat hway) ?_ ?_
        · rw [List.append_assoc]
          exact List.isChain_append_cons_cons.mpr ⟨hchain, himport, List.isChain_singleton target⟩
        · refine List.forall_mem_append.mpr ⟨hreached, ?_⟩
          intro p hp
          rw [List.mem_singleton.mp hp]
          exact hpath.tail himport

/-- A search among files that all resolve fails for a cycle only, as nothing
else can go wrong. -/
theorem exists_cycle_of_error {e : ResolveError} (h : load t root depth way loaded path = .error e)
    (hresolves : ∀ p, Reaches t root path p → Resolves t root p) :
    ∃ cycle, e = .circularImport cycle := by
  induction depth generalizing way loaded path with
  | zero => cases h
  | succ depth ih =>
      rcases load_eq_error h with ⟨-, hcycle⟩ | ⟨-, ⟨hnot, -⟩ | ⟨mid, target, himport, hload⟩⟩
      · exact ⟨_, hcycle⟩
      · exact absurd (hresolves path .refl) hnot
      · exact ih hload fun p hp => hresolves p (ReflTransGen.head himport hp)

/-! ## The limit -/

/-- More depth than a way can have changes nothing, for every file on the way is
another one. -/
theorem load_limit (hon : OnWay t depth way path) :
    load t root (depth + 1) way loaded path = load t root depth way loaded path := by
  induction depth generalizing way loaded path with
  | zero => exact absurd hon.depth_pos (Nat.lt_irrefl 0)
  | succ depth ih =>
      rw [load_succ, load_succ t root depth]
      by_cases hway : path ∈ way
      · rw [if_pos hway, if_pos hway]
      · have hfollow :
            loadImport t root (depth + 1) way path = loadImport t root depth way path := by
          funext mid i
          unfold loadImport
          cases htarget : importTarget t root path i.path with
          | error e => rfl
          | ok target => exact ih (hon.follow hway htarget)
        rw [hfollow]

theorem onWay_nil (hpath : path ∈ t.placePaths) {limit : Nat} (hlimit : wayLimit t ≤ limit) :
    OnWay t limit [] path where
  nodup := List.nodup_nil
  places := by simp
  target := hpath
  limit := Nat.lt_of_lt_of_le t.length_placePaths_lt hlimit

theorem load_of_wayLimit_le (hpath : path ∈ t.placePaths) {limit : Nat}
    (hlimit : wayLimit t ≤ limit) :
    load t root limit [] [] path = load t root (wayLimit t) [] [] path := by
  induction limit, hlimit using Nat.le_induction with
  | base => rfl
  | succ limit hle ih => rw [load_limit (onWay_nil hpath hle), ih]

/-- A search that ends without an error has seen all files that its first file
reaches, and none of them lies on a cycle. -/
theorem settled_of_load (hpath : path ∈ t.placePaths)
    (h : load t root (wayLimit t) [] [] path = .ok loaded) {p : String}
    (hreaches : Reaches t root path p) : Resolves t root p ∧ ¬ OnCycle t root p := by
  have hnone : Settled t root (done [] []) :=
    ⟨by simp [done, Loaded.paths], by simp [done, Loaded.paths], by simp [done, Loaded.paths]⟩
  obtain ⟨hsettled, hdone, -⟩ := load_settled h (onWay_nil hpath (Nat.le_refl _)) hnone
  have hp := hsettled.reaches hdone hreaches
  exact ⟨hsettled.resolves p hp, hsettled.acyclic p hp⟩

end Modules

/-! ## Loading an entry -/

namespace Tree

open Modules

variable {t : FileTree} {entry root : String}

theorem load_of_entryTarget {first : String} (h : entryTarget t entry = .ok first) :
    load t entry root = (Modules.load t root (wayLimit t) [] [] first).map fun loaded =>
      merge (loaded.map Prod.snd) := by
  have hbind : load t entry root = Modules.load t root (wayLimit t) [] [] first >>= fun loaded =>
      pure (merge (loaded.map Prod.snd)) := by
    rw [load, h]
    rfl
  rw [hbind]
  cases Modules.load t root (wayLimit t) [] [] first <;> rfl

theorem exists_entryTarget {tree : Tree} (h : load t entry root = .ok tree) :
    ∃ first, entryTarget t entry = .ok first := by
  obtain ⟨first, hfirst, -⟩ := Except.bind_eq_ok_iff.mp h
  exact ⟨first, hfirst⟩

theorem exists_entryTarget_of_circular {cycle : List String}
    (h : load t entry root = .error (.circularImport cycle)) :
    ∃ first, entryTarget t entry = .ok first := by
  rcases Except.bind_eq_error_iff.mp h with hentry | ⟨first, hfirst, -⟩
  · unfold entryTarget at hentry
    cases hcanonical : t.canonical (withSourceExtension entry) with
    | error e => simp [hcanonical, Except.mapError] at hentry
    | ok target => simp [hcanonical, Except.mapError] at hentry
  · exact ⟨first, hfirst⟩

/-- Import cycles are found where there are some, and only there. What is
reported as a cycle is one among the files that the entry reaches. If a tree is
loaded, all these files resolve and none lies on a cycle. If they all resolve
and one lies on a cycle, a cycle is reported. The limit on the way is never what
ends the search. -/
theorem load_finds_cycles (t : FileTree) (entry root : String) :
    (∀ cycle, load t entry root = .error (.circularImport cycle) →
      ∃ first, entryTarget t entry = .ok first ∧ ImportCycle t root first cycle) ∧
    (∀ tree, load t entry root = .ok tree →
      ∃ first, entryTarget t entry = .ok first ∧
        ∀ path, Reaches t root first path → Resolves t root path ∧ ¬ OnCycle t root path) ∧
    ∀ first, entryTarget t entry = .ok first →
      ((∀ path, Reaches t root first path → Resolves t root path) →
        (∃ path, Reaches t root first path ∧ OnCycle t root path) →
          ∃ cycle, load t entry root = .error (.circularImport cycle)) ∧
      ∀ limit, wayLimit t ≤ limit →
        Modules.load t root limit [] [] first = Modules.load t root (wayLimit t) [] [] first := by
  refine ⟨?_, ?_, ?_⟩
  · intro cycle h
    obtain ⟨first, hfirst⟩ := exists_entryTarget_of_circular h
    refine ⟨first, hfirst, ?_⟩
    rw [load_of_entryTarget hfirst] at h
    cases hload : Modules.load t root (wayLimit t) [] [] first with
    | ok loaded => rw [hload] at h; cases h
    | error e =>
        rw [hload] at h
        obtain rfl := Except.error.inj h
        exact load_importCycle hload List.nodup_nil (List.isChain_singleton first)
          (List.forall_mem_singleton.mpr .refl)
  · intro tree h
    obtain ⟨first, hfirst⟩ := exists_entryTarget h
    refine ⟨first, hfirst, fun path hreaches => ?_⟩
    rw [load_of_entryTarget hfirst] at h
    obtain ⟨loaded, hload, -⟩ := Except.map_eq_ok_iff.mp h
    exact settled_of_load (entryTarget_mem hfirst) hload hreaches
  · intro first hfirst
    refine ⟨?_, fun limit hlimit => load_of_wayLimit_le (entryTarget_mem hfirst) hlimit⟩
    -- With every import resolving, a cycle is all that can stop the load.
    rintro hresolves ⟨path, hreaches, hcycle⟩
    rw [load_of_entryTarget hfirst]
    cases hload : Modules.load t root (wayLimit t) [] [] first with
    | ok loaded => exact absurd hcycle (settled_of_load (entryTarget_mem hfirst) hload hreaches).2
    | error e =>
        obtain ⟨cycle, rfl⟩ := exists_cycle_of_error hload hresolves
        exact ⟨cycle, rfl⟩

/-- Two files that import each other, with another one beside them that imports
nothing. -/
def mutualImports : FileTree :=
  ⟨[(["a.bs"], .file (Text.bytes "import \"b\"")),
    (["b.bs"], .file (Text.bytes "import \"c\" import \"./a\"")), (["c.bs"], .file [])], []⟩

/-- Two files that import each other are a cycle, while the third one by itself
is on none. -/
theorem load_finds_cycles_mutual :
    (∃ first, entryTarget mutualImports "a" = .ok first ∧
      ImportCycle mutualImports "/" first ["/a.bs", "/b.bs", "/a.bs"]) ∧
    ∃ first, entryTarget mutualImports "c.bs" = .ok first ∧
      ∀ path, Reaches mutualImports "/" first path →
        Resolves mutualImports "/" path ∧ ¬ OnCycle mutualImports "/" path :=
  ⟨(load_finds_cycles mutualImports "a" "/").1 _ rfl,
    (load_finds_cycles mutualImports "c.bs" "/").2.1 _ rfl⟩

end Tree

end BlockLang
