import BlockLang.Proofs.ImportCycles
import Mathlib.Data.List.Forall2

/-! # The order of loading

A walk along the imports of a file meets a file as often as ways lead to it. Loading puts the files
in the order in which this walk first meets them, and of what they declare under one key it keeps
what comes first in that order. The search never enters a file twice; that it still sees all of the
walk rests on the files it is done with, for these have their whole walk behind them.
-/

namespace BlockLang

namespace Modules

open Relation

variable {t : FileTree} {root path : String} {depth : Nat} {way : List String}
  {loaded loaded' : Loaded}

/-! ## Walks -/

def Targets (t : FileTree) (root path : String) : List Import → List String → Prop :=
  List.Forall₂ fun i target => importTarget t root path i.path = .ok target

/-- The files met on a walk through some files, each before all that it imports.
A file is met once for every way that leads to it. -/
inductive Walk (t : FileTree) (root : String) : List String → List String → Prop
  | nil : Walk t root [] []
  | cons {path : String} {tree : Tree} {targets rest below after : List String}
      (hread : readTree t path = .ok tree) (htargets : Targets t root path tree.imports targets)
      (hbelow : Walk t root targets below) (hafter : Walk t root rest after) :
      Walk t root (path :: rest) (path :: (below ++ after))

variable {imports : List Import} {targets paths walk seen : List String} {tree : Tree}

theorem Targets.unique {targets' : List String} (h : Targets t root path imports targets)
    (h' : Targets t root path imports targets') :
    targets = targets' :=
  Relator.RightUnique.forall₂ (fun _ _ _ hi hi' => Except.ok.inj (hi.symm.trans hi')) h h'

/-- There is only one walk through some files, as their imports lead to files in
one order. -/
theorem Walk.unique {walk' : List String} (h : Walk t root paths walk)
    (h' : Walk t root paths walk') : walk = walk' := by
  induction h generalizing walk' with
  | nil => cases h'; rfl
  | cons hread htargets _ _ ihbelow ihafter =>
      cases h' with
      | cons hread' htargets' hbelow' hafter' =>
          obtain rfl := Except.ok.inj (hread.symm.trans hread')
          obtain rfl := htargets.unique htargets'
          rw [ihbelow hbelow', ihafter hafter']

theorem Walk.append {paths' walk' : List String} (h : Walk t root paths walk)
    (h' : Walk t root paths' walk') : Walk t root (paths ++ paths') (walk ++ walk') := by
  induction h with
  | nil => exact h'
  | cons hread htargets hbelow _ _ ih =>
      rw [List.cons_append, List.cons_append, List.append_assoc]
      exact .cons hread htargets hbelow ih

/-- A walk begins with the file itself and goes on through its imports, so it
begins with the file that is loaded first. -/
theorem Walk.file {below : List String} (hread : readTree t path = .ok tree)
    (htargets : Targets t root path tree.imports targets) (hbelow : Walk t root targets below) :
    Walk t root [path] (path :: below) := by
  have hwalk := Walk.cons hread htargets hbelow .nil
  rwa [List.append_nil] at hwalk

theorem Targets.mem_iff {target : String} (h : Targets t root path imports targets) :
    target ∈ targets ↔ ∃ i ∈ imports, importTarget t root path i.path = .ok target := by
  induction h with
  | nil => simp
  | cons hfirst _ ih => simp [ih, hfirst, eq_comm]

theorem Targets.imports_iff {target : String} (hread : readTree t path = .ok tree)
    (h : Targets t root path tree.imports targets) :
    Imports t root path target ↔ target ∈ targets := by
  rw [h.mem_iff]
  constructor
  · rintro ⟨tree', hread', himport⟩
    rwa [Except.ok.inj (hread.symm.trans hread')]
  · intro himport
    exact ⟨tree, hread, himport⟩

/-- A walk meets the files that are reached, and no others. -/
theorem Walk.mem_iff {q : String} (h : Walk t root paths walk) :
    q ∈ walk ↔ ∃ p ∈ paths, Reaches t root p q := by
  induction h with
  | nil => simp
  | @cons p tree targets rest below after hread htargets _ _ ihbelow ihafter =>
      have hfirst : Reaches t root p q ↔ q = p ∨ ∃ p' ∈ targets, Reaches t root p' q := by
        rw [Reaches, ReflTransGen.cases_head_iff, eq_comm]
        refine or_congr_right (exists_congr fun p' => and_congr_left fun _ => ?_)
        exact htargets.imports_iff hread
      simp only [List.mem_cons, List.mem_append, ihbelow, ihafter, exists_eq_or_imp, hfirst,
        or_assoc]

/-! ## What comes first -/

section

variable {α κ : Type} [BEq κ] [LawfulBEq κ] {key : α → κ}

/-- The first of each key are what is left when later ones are erased. -/
theorem firsts_eq_eraseDupsBy (key : α → κ) (taken : List κ) (as : List α) :
    firsts key taken as =
      (as.filter fun a => !taken.contains (key a)).eraseDupsBy fun a b => key a == key b := by
  induction as generalizing taken with
  | nil => rfl
  | cons a rest ih =>
      unfold firsts
      by_cases htaken : taken.contains (key a) = true
      · rw [if_pos htaken, ih, List.filter_cons_of_neg (by simpa using htaken)]
      · rw [if_neg htaken, ih, List.filter_cons_of_pos (by simpa using htaken),
          List.eraseDupsBy_cons, List.filter_filter]
        congr 2
        apply List.filter_congr
        intro b _
        by_cases hb : key b = key a <;> simp [hb]

theorem eraseDups_eq_firsts (ks : List κ) : ks.eraseDups = firsts id [] ks := by
  rw [firsts_eq_eraseDupsBy, List.filter_eq_self.mpr (by simp)]
  rfl

/-- The keys that are kept are those that there are, but for the keys taken
before. -/
theorem mem_keys_firsts {taken : List κ} {as : List α} {k : κ} :
    k ∈ (firsts key taken as).map key ↔ k ∈ as.map key ∧ k ∉ taken := by
  induction as generalizing taken with
  | nil => simp [firsts]
  | cons a rest ih =>
      unfold firsts
      split_ifs with htaken
      · have hmem : key a ∈ taken := by simpa using htaken
        rw [ih, List.map_cons, List.mem_cons, or_and_right]
        refine ⟨.inr, ?_⟩
        rintro (⟨rfl, hk⟩ | hk)
        · exact absurd hmem hk
        · exact hk
      · have hmem : key a ∉ taken := by simpa using htaken
        simp only [List.map_cons, List.mem_cons, ih, not_or]
        by_cases hk : k = key a
        · simp [hk, hmem]
        · simp [hk]

theorem nodup_keys_firsts (key : α → κ) (taken : List κ) (as : List α) :
    ((firsts key taken as).map key).Nodup := by
  induction as generalizing taken with
  | nil => exact List.nodup_nil
  | cons a rest ih =>
      unfold firsts
      split_ifs
      · exact ih taken
      · refine List.nodup_cons.mpr ⟨?_, ih _⟩
        rw [mem_keys_firsts]
        simp

end

/-! ## The search -/

def Walked (t : FileTree) (root : String) (way : List String) (loaded : Loaded) : Prop :=
  ∀ p, done way loaded p → ∃ walk, Walk t root [p] walk ∧ ∀ q ∈ walk, q ∈ loaded.paths

/-- How far a search has come: the files loaded are those of `seen`, in the
order of their first occurrence. -/
structure Seen (t : FileTree) (root : String) (way : List String) (loaded : Loaded)
    (seen : List String) : Prop where
  order : loaded.paths = seen.eraseDups
  walked : Walked t root way loaded

theorem Seen.mem_iff {p : String} (h : Seen t root way loaded seen) :
    p ∈ loaded.paths ↔ p ∈ seen := by
  rw [h.order, List.mem_eraseDups]

/-- A file comes onto the way with nothing of its walk behind it: it is loaded,
but not done with. -/
theorem Seen.enter (h : Seen t root way loaded seen) (hpath : path ∉ loaded.paths) :
    Seen t root (way ++ [path]) (loaded ++ [(path, tree)]) (seen ++ [path]) where
  order := by
    rw [List.eraseDups_concat (mt h.mem_iff.mpr hpath), ← h.order, Loaded.paths, List.map_append]
    rfl
  walked := by
    intro p hp
    rw [done_concat hpath] at hp
    obtain ⟨walk, hwalk, hmem⟩ := h.walked p hp
    refine ⟨walk, hwalk, fun q hq => ?_⟩
    rw [Loaded.paths, List.map_append]
    exact List.mem_append_left _ (hmem q hq)

/-- A file leaves the way with its walk behind it, which is the file and then
the walks of its imports. -/
theorem Seen.leave {below : List String}
    (h : Seen t root (way ++ [path]) loaded (seen ++ path :: below)) (hway : path ∉ way)
    (hread : readTree t path = .ok tree) (htargets : Targets t root path tree.imports targets)
    (hbelow : Walk t root targets below) : Seen t root way loaded (seen ++ path :: below) where
  order := h.order
  walked := by
    have hpath : path ∈ loaded.paths := h.mem_iff.mpr (by simp)
    intro p hp
    rw [done_of_leave hway hpath] at hp
    rcases hp with hp | rfl
    · exact h.walked p hp
    · refine ⟨p :: below, .file hread htargets hbelow, fun q hq => ?_⟩
      exact h.mem_iff.mpr (List.mem_append_right seen hq)

/-- Following imports one after another adds their walks to what was seen, if
following each of them does. -/
theorem follow_seen {before : List String}
    (hstep : ∀ {i : Import} {mid next : Loaded} {before : List String},
      loadImport t root depth way path mid i = .ok next → Seen t root (way ++ [path]) mid before →
        ∃ target walk, importTarget t root path i.path = .ok target ∧ Walk t root [target] walk ∧
          Seen t root (way ++ [path]) next (before ++ walk))
    (h : imports.foldlM (loadImport t root depth way path) loaded = .ok loaded')
    (hseen : Seen t root (way ++ [path]) loaded before) :
    ∃ targets below, Targets t root path imports targets ∧ Walk t root targets below ∧
      Seen t root (way ++ [path]) loaded' (before ++ below) := by
  induction imports generalizing loaded before with
  | nil =>
      obtain rfl := Except.ok.inj h
      exact ⟨[], [], .nil, .nil, by rwa [List.append_nil]⟩
  | cons i rest ih =>
      rw [List.foldlM_cons] at h
      obtain ⟨next, hnext, hrest⟩ := Except.bind_eq_ok_iff.mp h
      obtain ⟨target, walk, htarget, hwalk, hseen'⟩ := hstep hnext hseen
      obtain ⟨targets, below, htargets, hbelow, hlast⟩ := ih hrest hseen'
      rw [List.append_assoc] at hlast
      exact ⟨target :: targets, walk ++ below, .cons htarget htargets, hwalk.append hbelow, hlast⟩

/-- A search that ends without an error has gone through the walk of its
file. -/
theorem load_seen (h : load t root depth way loaded path = .ok loaded')
    (hon : OnWay t depth way path) (hseen : Seen t root way loaded seen) :
    ∃ walk, Walk t root [path] walk ∧ Seen t root way loaded' (seen ++ walk) := by
  induction depth generalizing way loaded path loaded' seen with
  | zero => exact absurd hon.depth_pos (Nat.lt_irrefl 0)
  | succ depth ih =>
      obtain ⟨hway, ⟨hpath, rfl⟩ | ⟨hpath, tree, hread, hfold⟩⟩ := load_eq_ok_iff.mp h
      · -- The search was here before, and went through the whole walk then.
        obtain ⟨walk, hwalk, hmem⟩ := hseen.walked path ⟨hpath, hway⟩
        refine ⟨walk, hwalk, ?_, hseen.walked⟩
        rw [List.eraseDups_append_of_subset fun q hq => hseen.mem_iff.mp (hmem q hq), hseen.order]
      · have hstep : ∀ {i : Import} {mid next : Loaded} {before : List String},
            loadImport t root depth way path mid i = .ok next →
            Seen t root (way ++ [path]) mid before →
            ∃ target walk, importTarget t root path i.path = .ok target ∧
              Walk t root [target] walk ∧ Seen t root (way ++ [path]) next (before ++ walk) := by
          intro i mid next before hnext hmid
          obtain ⟨target, htarget, hload⟩ := Except.bind_eq_ok_iff.mp hnext
          obtain ⟨walk, hwalk, hseen'⟩ := ih hload (hon.follow hway htarget) hmid
          exact ⟨target, walk, htarget, hwalk, hseen'⟩
        obtain ⟨targets, below, htargets, hbelow, hlast⟩ :=
          follow_seen hstep hfold (hseen.enter hpath)
        rw [List.append_assoc, List.singleton_append] at hlast
        exact ⟨path :: below, .file hread htargets hbelow,
          hlast.leave hway hread htargets hbelow⟩

/-! ## Files without cycles -/

/-- A reported cycle is a file that is reached and leads back to itself. -/
theorem ImportCycle.exists_onCycle {entry : String} {cycle : List String}
    (h : ImportCycle t root entry cycle) :
    ∃ path, Reaches t root entry path ∧ OnCycle t root path := by
  obtain ⟨hlength, hclosed, -, hreached, hchain⟩ := h
  match cycle, hlength with
  | first :: second :: rest, _ =>
      refine ⟨first, hreached first List.mem_cons_self, ?_⟩
      obtain ⟨himport, hrest⟩ := List.isChain_cons_cons.mp hchain
      refine TransGen.head' himport (List.relationReflTransGen_of_exists_isChain_cons rest hrest ?_)
      rw [List.head?_cons, List.getLast?_cons_cons, List.getLast?_eq_some_getLast (by simp)]
        at hclosed
      exact (Option.some.inj hclosed).symm

/-- A search among files that resolve and lie on no cycle ends without an error,
whatever its limit. -/
theorem exists_load (limit : Nat)
    (hresolves : ∀ p, Reaches t root path p → Resolves t root p)
    (hacyclic : ∀ p, Reaches t root path p → ¬ OnCycle t root p) :
    ∃ loaded, load t root limit [] [] path = .ok loaded := by
  cases hload : load t root limit [] [] path with
  | ok loaded => exact ⟨loaded, rfl⟩
  | error e =>
      obtain ⟨cycle, rfl⟩ := exists_cycle_of_error hload hresolves
      have hcycle := load_importCycle hload List.nodup_nil (List.isChain_singleton path)
        (List.forall_mem_singleton.mpr .refl)
      obtain ⟨p, hreaches, honCycle⟩ := hcycle.exists_onCycle
      exact absurd honCycle (hacyclic p hreaches)

theorem forall₂_readTree (h : loaded.WereRead t) :
    List.Forall₂ (fun path tree => readTree t path = .ok tree) loaded.paths
      (loaded.map Prod.snd) := by
  unfold Loaded.paths
  rw [List.forall₂_map_left_iff, List.forall₂_map_right_iff, List.forall₂_same]
  exact h

end Modules

/-! ## Trees of several files -/

namespace Tree

open Modules

variable {t : FileTree} {entry root first : String}

/-- What some trees declare together, where of those with one key all behind the
first are erased. -/
def firstDeclared (trees : List Tree) : Tree where
  schemas := (trees.flatMap schemas).eraseDupsBy fun s s' => s.name == s'.name
  actions := (trees.flatMap actions).eraseDupsBy fun a a' => a.name == a'.name
  routes := (trees.flatMap routes).eraseDupsBy fun r r' => r.key == r'.key
  migrations := trees.flatMap migrations
  imports := []

structure KeysIn (u tree : Tree) : Prop where
  schemas : ∀ s ∈ u.schemas, s.name ∈ tree.schemas.map Schema.name
  actions : ∀ a ∈ u.actions, a.name ∈ tree.actions.map Action.name
  routes : ∀ r ∈ u.routes, r.key ∈ tree.routes.map Route.key

structure DistinctKeys (tree : Tree) : Prop where
  schemas : (tree.schemas.map Schema.name).Nodup
  actions : (tree.actions.map Action.name).Nodup
  routes : (tree.routes.map Route.key).Nodup

/-- Merging trees is erasing, in all they declare together, what is declared
again. -/
theorem merge_eq_firstDeclared (trees : List Tree) : merge trees = firstDeclared trees := by
  simp [merge, firstDeclared, firsts_eq_eraseDupsBy]

theorem distinctKeys_merge (trees : List Tree) : (merge trees).DistinctKeys where
  schemas := nodup_keys_firsts ..
  actions := nodup_keys_firsts ..
  routes := nodup_keys_firsts ..

/-- Whatever a tree declares is declared under its key by the merge, if perhaps
by another tree. -/
theorem keysIn_merge {trees : List Tree} {u : Tree} (hu : u ∈ trees) : u.KeysIn (merge trees) := by
  have hkey {α κ : Type} [BEq κ] [LawfulBEq κ] (key : α → κ) (parts : Tree → List α) {a : α}
      (ha : a ∈ parts u) : key a ∈ (firsts key [] (trees.flatMap parts)).map key := by
    apply mem_keys_firsts.mpr
    exact ⟨List.mem_map_of_mem (List.mem_flatMap.mpr ⟨u, hu, ha⟩), List.not_mem_nil⟩
  exact ⟨fun s hs => hkey _ _ hs, fun a ha => hkey _ _ ha, fun r hr => hkey _ _ hr⟩

/-- Of what several files declare, the first in the order of loading counts. Let
the files that an entry reaches all resolve, and let none of them lie on a
cycle. Then there is one walk from the entry along all imports, which meets
exactly these files, and the files stand in the order in which it first meets
them. The tree that is loaded is what their trees declare in this order, the
first under each key, with the migrations of every file once. So it declares
nothing twice under a key and leaves out no key. -/
theorem load_first_declared (hfirst : entryTarget t entry = .ok first)
    (hresolves : ∀ path, Reaches t root first path → Resolves t root path)
    (hacyclic : ∀ path, Reaches t root first path → ¬ OnCycle t root path) :
    ∃ walk trees, (∀ other, Walk t root [first] other ↔ other = walk) ∧
      (∀ path, path ∈ walk.eraseDups ↔ Reaches t root first path) ∧ walk.eraseDups.Nodup ∧
      List.Forall₂ (fun path tree => readTree t path = .ok tree) walk.eraseDups trees ∧
      load t entry root = .ok (firstDeclared trees) ∧ (firstDeclared trees).DistinctKeys ∧
      ∀ path u, Reaches t root first path → readTree t path = .ok u →
        u.KeysIn (firstDeclared trees) := by
  obtain ⟨loaded, hload⟩ := exists_load (wayLimit t) hresolves hacyclic
  have hstart : Seen t root [] [] [] := ⟨rfl, fun p hp => absurd hp.1 List.not_mem_nil⟩
  obtain ⟨walk, hwalk, hseen⟩ :=
    load_seen hload (onWay_nil (entryTarget_mem hfirst) (Nat.le_refl _)) hstart
  -- The files are loaded in the order of the walk, each at its first visit.
  have horder : loaded.paths = walk.eraseDups := hseen.order
  have hwereRead := load_wereRead hload (List.forall_mem_nil _)
  have hread := forall₂_readTree hwereRead
  have hreaches : ∀ path, path ∈ walk ↔ Reaches t root first path := by
    intro path
    rw [hwalk.mem_iff]
    simp
  rw [horder] at hread
  refine ⟨walk, loaded.map Prod.snd, ?_, ?_, ?_, hread, ?_, ?_, ?_⟩
  · intro other
    exact ⟨fun h => h.unique hwalk, fun h => h ▸ hwalk⟩
  · intro path
    rw [List.mem_eraseDups, hreaches]
  · rw [eraseDups_eq_firsts]
    simpa using nodup_keys_firsts id [] walk
  · rw [load_of_entryTarget hfirst, hload, ← merge_eq_firstDeclared]
    rfl
  · rw [← merge_eq_firstDeclared]
    exact distinctKeys_merge _
  · intro path u hpath hu
    rw [← merge_eq_firstDeclared]
    apply keysIn_merge
    have hmem : path ∈ loaded.paths := by rwa [horder, List.mem_eraseDups, hreaches]
    obtain ⟨⟨path, u'⟩, hloaded, rfl⟩ := List.mem_map.mp hmem
    rw [Except.ok.inj (hu.symm.trans (hwereRead _ hloaded))]
    exact List.mem_map_of_mem hloaded

/-- Two files that import a third one, by different spellings of its path. -/
def diamondImports : FileTree :=
  ⟨[(["main.bs"], .file (Text.bytes "import \"left\" import \"right\"")),
    (["left.bs"], .file (Text.bytes "import \"./shared\"")),
    (["right.bs"], .file (Text.bytes "do f() {2} import \"/shared.bs\" do g() {}")),
    (["shared.bs"], .file (Text.bytes "do f() {1}"))], []⟩

/-- The third file is met twice and loaded once, before the second of the two,
so its action is the one that counts. -/
theorem load_first_declared_diamond :
    ∃ walk trees, Walk diamondImports "/" ["/main.bs"] walk ∧
      List.Forall₂ (fun path tree => readTree diamondImports path = .ok tree) walk.eraseDups trees ∧
      load diamondImports "main" "/" = .ok (firstDeclared trees) ∧
      (firstDeclared trees).actions = [⟨"f", [], "1", 1⟩, ⟨"g", [], "", 1⟩] := by
  have hload : load diamondImports "main" "/" =
      .ok { actions := [⟨"f", [], "1", 1⟩, ⟨"g", [], "", 1⟩] } := by decide +kernel
  have hentry : entryTarget diamondImports "main" = .ok "/main.bs" := by decide +kernel
  obtain ⟨loaded, hloaded, -⟩ :=
    Except.map_eq_ok_iff.mp ((load_of_entryTarget hentry).symm.trans hload)
  have hsettled {path : String} := settled_of_load (p := path) (entryTarget_mem hentry) hloaded
  obtain ⟨walk, trees, hwalk, -, -, hread, hok, -⟩ :=
    load_first_declared hentry (fun _ h => (hsettled h).1) (fun _ h => (hsettled h).2)
  rw [hload] at hok
  refine ⟨walk, trees, (hwalk walk).mpr rfl, hread, hload.trans hok, ?_⟩
  rw [← Except.ok.inj hok]

end Tree

end BlockLang
