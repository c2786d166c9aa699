import BlockLang.Project.Modules
import BlockLang.Proofs.Lists
import BlockLang.Proofs.ParsedTrees

/-! # What loading does

Loading a file reads it, puts it behind what is loaded and then loads what it imports, one import
after another. Every tree that is loaded was read from its file, so what is known of trees that
were read is known of their merge.
-/

namespace BlockLang

namespace Modules

variable {t : FileTree} {root path : String} {depth : Nat} {way : List String}
  {loaded loaded' : Loaded}

/-! ## Steps -/

def Loaded.paths (loaded : Loaded) : List String := loaded.map Prod.fst

theorem lookup_isSome_iff : (loaded.lookup path).isSome = true ↔ path ∈ loaded.paths := by
  simp only [List.lookup_isSome_iff, Loaded.paths, List.mem_map, beq_iff_eq]
  exact exists_congr fun entry => and_congr_right fun _ => eq_comm

def loadImport (t : FileTree) (root : String) (depth : Nat) (way : List String)
    (importer : String) (loaded : Loaded) (i : Import) : Except ResolveError Loaded := do
  let target ← importTarget t root importer i.path
  load t root depth (way ++ [importer]) loaded target

theorem load_succ (t : FileTree) (root : String) (depth : Nat) (way : List String)
    (loaded : Loaded) (path : String) :
    load t root (depth + 1) way loaded path =
      if path ∈ way then .error (.circularImport (way.dropWhile (· ≠ path) ++ [path]))
      else if (loaded.lookup path).isSome then .ok loaded
      else readTree t path >>= fun tree =>
        tree.imports.foldlM (loadImport t root depth way path) (loaded ++ [(path, tree)]) := rfl

/-- What a file that is loaded leads to: it is not on the way, and it is loaded
before, or it is read and its imports are followed. -/
theorem load_eq_ok_iff :
    load t root (depth + 1) way loaded path = .ok loaded' ↔
      path ∉ way ∧ (path ∈ loaded.paths ∧ loaded' = loaded ∨
        path ∉ loaded.paths ∧ ∃ tree, readTree t path = .ok tree ∧
          tree.imports.foldlM (loadImport t root depth way path) (loaded ++ [(path, tree)]) =
            .ok loaded') := by
  rw [load_succ]
  split_ifs with hway hlookup
  · simp [hway]
  · simp [hway, lookup_isSome_iff.mp hlookup, eq_comm]
  · have hpaths : path ∉ loaded.paths := fun hmem => hlookup (lookup_isSome_iff.mpr hmem)
    simp [hway, hpaths, Except.bind_eq_ok_iff]

/-! ## Trees that were read -/

/-- Whether every tree that is loaded was read from its file. -/
def Loaded.WereRead (t : FileTree) (loaded : Loaded) : Prop :=
  ∀ entry ∈ loaded, readTree t entry.1 = .ok entry.2

/-- The search adds trees only as it reads them, by induction on the depth and
over the imports. -/
theorem load_wereRead (h : load t root depth way loaded path = .ok loaded')
    (hloaded : loaded.WereRead t) : loaded'.WereRead t := by
  induction depth generalizing way loaded path loaded' with
  | zero =>
      obtain rfl := Except.ok.inj h
      exact hloaded
  | succ depth ih =>
      obtain ⟨-, ⟨-, rfl⟩ | ⟨-, tree, hread, hfold⟩⟩ := load_eq_ok_iff.mp h
      · exact hloaded
      · have hfirst : Loaded.WereRead t (loaded ++ [(path, tree)]) :=
          List.forall_mem_append.mpr ⟨hloaded, by simpa using hread⟩
        refine (List.foldlM_ok (Q := fun _ _ => True) hfold hfirst ?_).1
        intro i _ mid next hmid hnext
        obtain ⟨target, -, hload⟩ := Except.bind_eq_ok_iff.mp hnext
        exact ⟨ih hload hmid, trivial, fun _ _ => trivial⟩

theorem wellRead_of_readTree {tree : Tree} (h : readTree t path = .ok tree) : tree.WellRead := by
  unfold readTree at h
  split at h
  · cases h
  · exact Parser.wellRead_of_ofSource (Except.mapError_eq_ok_iff.mp h)

theorem mem_of_mem_firsts {α κ : Type} [BEq κ] {key : α → κ} {taken : List κ} {as : List α}
    {a : α} (h : a ∈ firsts key taken as) : a ∈ as := by
  induction as generalizing taken with
  | nil => cases h
  | cons b rest ih =>
      unfold firsts at h
      split_ifs at h
      · exact List.mem_cons_of_mem b (ih h)
      · rcases List.mem_cons.mp h with rfl | hrest
        · exact List.mem_cons_self
        · exact List.mem_cons_of_mem b (ih hrest)

/-- Merging keeps what is known of trees that were read, since everything in the
merge comes from one of them. -/
theorem wellRead_merge {trees : List Tree} (h : ∀ tree ∈ trees, tree.WellRead) :
    (merge trees).WellRead := by
  have hmember {α : Type} {parts : Tree → List α} {a : α} (ha : a ∈ trees.flatMap parts) :
      ∃ tree ∈ trees, tree.WellRead ∧ a ∈ parts tree := by
    obtain ⟨tree, htree, hmem⟩ := List.mem_flatMap.mp ha
    exact ⟨tree, htree, h tree htree, hmem⟩
  refine ⟨⟨?_, ?_, ?_⟩, ?_⟩
  · intro s hs
    obtain ⟨tree, -, hread, hmem⟩ := hmember (mem_of_mem_firsts hs)
    exact hread.named.schemas s hmem
  · intro a ha
    obtain ⟨tree, -, hread, hmem⟩ := hmember (mem_of_mem_firsts ha)
    exact hread.named.actions a hmem
  · intro r hr
    obtain ⟨tree, -, hread, hmem⟩ := hmember (mem_of_mem_firsts hr)
    exact hread.named.routes r hmem
  · intro a ha
    obtain ⟨tree, -, hread, hmem⟩ := hmember (mem_of_mem_firsts ha)
    exact hread.enclosed a hmem

/-- What is known of the tree of a source is known of the tree of several
files. -/
theorem wellRead_of_load {entry : String} {tree : Tree} (h : Tree.load t entry root = .ok tree) :
    tree.WellRead := by
  simp only [Tree.load, Except.bind_eq_ok_iff] at h
  obtain ⟨first, -, loaded, hload, h⟩ := h
  obtain rfl := Except.ok.inj h
  apply wellRead_merge
  intro tree htree
  obtain ⟨⟨file, tree⟩, hmem, rfl⟩ := List.mem_map.mp htree
  exact wellRead_of_readTree (load_wereRead hload (by simp [Loaded.WereRead]) _ hmem)

end Modules

end BlockLang
