import BlockLang.Project.Build
import BlockLang.Proofs.JsonTexts
import BlockLang.Proofs.StagedWrites

/-! # Configurations that were saved

What a saved configuration is read back as, and what saving it does to the other files. The fields
of a configuration may hold any strings, and the project may be anywhere in the file tree.
-/

namespace BlockLang

/-! ## Texts -/

namespace Config

theorem Key.ofSpelling?_spelling (key : Key) : ofSpelling? key.spelling = some key := by
  cases key <;> decide

theorem read?_of_object {text : String} {members : List (Option String × Json.Syntax)}
    (h : Json.Syntax.read? text = some (.object members)) :
    read? text = readMembers {} [] members := by
  rw [read?, h]
  rfl

theorem readMembers_cons {c next : Config} {key : Key} {seen : List Key} {value : Json.Syntax}
    (hkey : key ∉ seen) (h : c.setField? key value = some next)
    (rest : List (Option String × Json.Syntax)) :
    c.readMembers seen ((some key.spelling, value) :: rest) =
      next.readMembers (key :: seen) rest := by
  simp only [readMembers, Key.ofSpelling?_spelling, if_neg hkey, h, Option.bind_eq_bind,
    Option.bind_some]

def fieldSyntax (c : Config) : Key → Json.Syntax
  | .version => .scalar (some (.whole c.version))
  | .entry => .string (some c.entry)
  | .outDir => .string (some c.outDir)
  | .dialect => .string (some c.dialect.spelling)
  | .serverFile => .string (some c.serverFile)
  | .typesFile => .string (some c.typesFile)
  | .emitTypes => .scalar (some (.bool c.emitTypes))
  | .runtimeModule => .string (some c.runtimeModule)

/-- The fields of a configuration are simple values, as far as its version is a
number that the format can hold. -/
theorem areSimple_fields {c : Config} (h : c.version < Json.wordLimit) :
    Json.Syntax.AreSimple
      [("version", .whole c.version), ("entry", .text c.entry), ("out_dir", .text c.outDir),
        ("dialect", .text c.dialect.spelling), ("server_file", .text c.serverFile),
        ("types_file", .text c.typesFile), ("emit_types", .bool c.emitTypes),
        ("runtime_module", .text c.runtimeModule)]
      (Key.all.map fun key => (some key.spelling, c.fieldSyntax key)) :=
  .cons ⟨rfl, .number h⟩ <| .cons ⟨rfl, .text _⟩ <| .cons ⟨rfl, .text _⟩ <|
    .cons ⟨rfl, .text _⟩ <| .cons ⟨rfl, .text _⟩ <| .cons ⟨rfl, .text _⟩ <|
    .cons ⟨rfl, .flag _⟩ <| .cons ⟨rfl, .text _⟩ .nil

theorem lt_wordLimit {n : Nat} (h : n < 2 ^ 32) : n < Json.wordLimit :=
  Nat.lt_trans h (Nat.pow_lt_pow_right (by decide) (by decide))

theorem version?_whole {n : Nat} (h : n < 2 ^ 32) :
    version? (.scalar (some (.whole n))) = some n := by
  have hbits : (n : Int) < (Nat.pow 2 32 : Nat) := Int.ofNat_lt.mpr h
  rw [version?, if_pos (And.intro (Int.natCast_nonneg n) hbits), Int.toNat_natCast]

/-- A configuration is read back from its text, whatever characters are in its
fields. -/
theorem read?_pretty {c : Config} (h : c.version < 2 ^ 32) : read? c.toJson.pretty = some c := by
  have hversion : version? (c.fieldSyntax .version) = some c.version := version?_whole h
  have hdialect : dialect? (c.fieldSyntax .dialect) = some c.dialect :=
    Dialect.ofSpelling?_spelling c.dialect
  have hsyntax : Json.Syntax.read? c.toJson.pretty =
      some (.object (Key.all.map fun key => (some key.spelling, c.fieldSyntax key))) :=
    Json.Syntax.read?_pretty (areSimple_fields (lt_wordLimit h)) (by simp)
  rw [read?_of_object hsyntax]
  simp only [Key.all, List.map_cons, List.map_nil]
  rw [readMembers_cons (by decide) (by rw [setField?, hversion]; rfl),
    readMembers_cons (by decide) rfl, readMembers_cons (by decide) rfl,
    readMembers_cons (by decide) (by rw [setField?, hdialect]; rfl),
    readMembers_cons (by decide) rfl, readMembers_cons (by decide) rfl,
    readMembers_cons (by decide) rfl, readMembers_cons (by decide) rfl]
  rfl

end Config

/-! ## Paths -/

open BlockLang.Path in
theorem Path.exists_segments_join (base : String) {name : String} (h : '/' ∉ name.toList) :
    ∃ init, segments (join base name).toList = init ++ [name.toList] := by
  have hname := segments_of_not_mem h
  have hhead : name.toList.head? ≠ some '/' := fun hhead => h (List.mem_of_head? hhead)
  rw [join, if_neg hhead]
  split_ifs with hbase
  · rw [Bool.or_eq_true, String.isEmpty_iff, decide_eq_true_eq] at hbase
    rcases hbase with rfl | hslash
    · exact ⟨[], by simpa using hname⟩
    · obtain ⟨cs, hcs⟩ := List.getLast?_eq_some_iff.mp hslash
      refine ⟨segments cs, ?_⟩
      rw [String.toList_append, hcs, List.append_assoc, List.singleton_append,
        segments_append_slash, hname]
  · refine ⟨segments base.toList, ?_⟩
    have hslash : (base ++ "/" ++ name).toList = base.toList ++ '/' :: name.toList := by simp
    rw [hslash, segments_append_slash, hname]

namespace FileTree

variable {t u : FileTree} {path : String} {l : Location} {contents : List UInt8}

theorem exists_slot_join {base name : String} (hname : '/' ∉ name.toList)
    (h : t.slot? (Path.join base name) = some l) : ∃ directory, l = directory ++ [name] := by
  obtain ⟨directory, last, hparent, -, rfl⟩ := slot?_eq_some_iff.mp h
  obtain ⟨init, chars, hends, rfl⟩ := exists_endsIn hparent
  obtain ⟨init', hsegments⟩ := Path.exists_segments_join base hname
  have hlast := (List.append_inj' (hends.split.symm.trans hsegments) rfl).2
  rw [List.singleton_inj.mp hlast, String.ofList_toList]
  exact ⟨directory, rfl⟩

/-- A file that was replaced holds the new contents, and only its slot and the
one beside it are touched. -/
theorem replace_eq_ok (h : t.replace path contents = ⟨.ok (), u⟩) :
    ∃ l k, t.slot? path = some l ∧ t.stagingSlot? path = some k ∧ t.SameDirectories u ∧
      u.get? l = some (.file contents) ∧ ∀ m, m ≠ l → m ≠ k → u.get? m = t.get? m := by
  unfold replace at h
  split at h
  next => cases (Outcome.mk.inj h).1
  next staged hstage =>
    split at h
    next => cases (Outcome.mk.inj h).1
    next done hcommit =>
      obtain rfl := (Outcome.mk.inj h).2
      obtain ⟨k, hstaging, hstaged, hget⟩ := stage_eq_ok hstage
      obtain ⟨k', l, moved, hstaging', hslot, hmoved, hdone, hget'⟩ := commit_eq_ok hcommit
      rw [← hstaged.stagingSlot?, hstaging] at hstaging'
      obtain rfl := Option.some.inj hstaging'
      rw [hget, if_pos rfl] at hmoved
      obtain rfl := Entry.file.inj (Option.some.inj hmoved)
      refine ⟨l, k, hstaged.slot?.trans hslot, hstaging, hstaged.trans hdone, ?_, ?_⟩
      · rw [hget', if_pos rfl]
      · intro m hl hk
        rw [hget', if_neg hl, if_neg hk, hget, if_neg hk]

end FileTree

/-! ## Files -/

namespace Config

variable {t u : FileTree} {root : String} {c : Config}

/-- Loading from the slot of the configuration file gives what was written to
it, or refuses a version that is too new. -/
theorem load_of_slot {l : Location} (hslot : u.slot? (path root) = some l)
    (hget : u.get? l = some (.file (Text.bytes c.toJson.pretty))) (h : c.version < 2 ^ 32) :
    load u root = if supportedVersion < c.version
      then .error (.unsupportedVersion (path root) c.version) else .ok c := by
  have hexists : u.exists? (path root) = true := by
    rw [FileTree.exists?, FileTree.find_eq_file_iff.mpr ⟨hslot, hget⟩]
    rfl
  have htext : u.readText (path root) = .ok c.toJson.pretty := by
    rw [FileTree.readText, FileTree.read_eq_ok_iff.mpr ⟨l, hslot, hget⟩]
    simp only [bind, Except.bind, Text.ofBytes?_bytes]
    rfl
  simp only [load, hexists, htext, read?_pretty h]
  rfl

/-- A configuration that was saved is loaded again as it is, or refused for its
version if that is too new. Saving it leaves alone what is not in the slots of
the configuration file and of the file beside it. -/
theorem load_of_save (h : save t root c = ⟨.ok (), u⟩) :
    (c.version ≤ supportedVersion → load u root = .ok c) ∧
    (supportedVersion < c.version → c.version < 2 ^ 32 →
      load u root = .error (.unsupportedVersion (path root) c.version)) ∧
    ∃ directory, t.slot? (path root) = some (directory ++ ["blocksmith.json"]) ∧
      u.workingDirectory = t.workingDirectory ∧
      ∀ l, l ≠ directory ++ ["blocksmith.json"] → l ≠ directory ++ ["blocksmith.json.tmp"] →
        u.get? l = t.get? l := by
  have hreplace : t.replace (path root) (Text.bytes c.toJson.pretty) = ⟨.ok (), u⟩ := by
    rw [save] at h
    cases houtcome : t.replace (path root) (Text.bytes c.toJson.pretty) with
    | mk result tree =>
        rw [houtcome] at h
        obtain ⟨hresult, rfl⟩ := FileTree.Outcome.mk.inj h
        cases result with
        | error e => cases hresult
        | ok _ => rfl
  obtain ⟨l, k, hslot, hstaging, hsame, hget, hothers⟩ := FileTree.replace_eq_ok hreplace
  have hload := load_of_slot (hsame.slot?.symm.trans hslot) hget
  refine ⟨?_, ?_, ?_⟩
  · intro hversion
    have hbits : c.version < 2 ^ 32 := Nat.lt_of_le_of_lt hversion (by decide)
    rw [hload hbits, if_neg (Nat.not_lt.mpr hversion)]
  · intro hversion hbits
    rw [hload hbits, if_pos hversion]
  · -- The file beside is in the same directory, since its path has only a longer name.
    obtain ⟨directory, rfl⟩ := FileTree.exists_slot_join (by decide) hslot
    obtain ⟨directory', name, hl, rfl⟩ := FileTree.slot?_temporary hslot hstaging
    obtain ⟨rfl, hname⟩ := List.append_inj' hl rfl
    obtain rfl := List.singleton_inj.mp hname
    exact ⟨directory, hslot, hsame.1.workingDirectory.symm, hothers⟩

/-- A configuration with quotes and a line break in its fields, and one of a
newer version, both saved at the root. -/
theorem load_of_save_root :
    (∃ u, save {} "/" { entry := "a\"\n", outDir := "\\" } = ⟨.ok (), u⟩ ∧
      load u "/" = .ok { entry := "a\"\n", outDir := "\\" }) ∧
    ∃ u, save {} "/" { version := 7 } = ⟨.ok (), u⟩ ∧
      load u "/" = .error (.unsupportedVersion "/blocksmith.json" 7) := by
  have hreplace : ∀ contents, ∃ u, FileTree.replace {} (path "/") contents = ⟨.ok (), u⟩ :=
    fun contents => ⟨_, rfl⟩
  have hsave : ∀ c, ∃ u, save {} "/" c = ⟨.ok (), u⟩ := by
    intro c
    obtain ⟨u, hu⟩ := hreplace (Text.bytes c.toJson.pretty)
    rw [save, hu]
    exact ⟨u, rfl⟩
  constructor
  · obtain ⟨u, hu⟩ := hsave { entry := "a\"\n", outDir := "\\" }
    exact ⟨u, hu, (load_of_save hu).1 (by decide)⟩
  · obtain ⟨u, hu⟩ := hsave { version := 7 }
    exact ⟨u, hu, (load_of_save hu).2.1 (by decide) (by decide)⟩

end Config

end BlockLang
