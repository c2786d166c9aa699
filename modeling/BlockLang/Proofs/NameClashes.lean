import BlockLang.Proofs.TopLevelNames

/-! # Clashes of declared names

The names that a module declares for its schemas are made by putting a fixed text before or behind
the name of a schema. Two such texts meet in one name only if one is put before and the other
behind, so the validator of one schema can have the name of the columns or the statements of
another. All other names of a module are different.
-/

namespace BlockLang

namespace Code

/-! ## Names made from names of schemas -/

theorem validatorName_injective : Function.Injective validatorName :=
  fun s t h => by simpa [validatorName, ← String.toList_inj] using h

theorem statementsName_injective : Function.Injective statementsName :=
  fun s t h => by simpa [statementsName, ← String.toList_inj] using h

theorem columnsName_injective : Function.Injective columnsName :=
  fun s t h => by simpa [columnsName, ← String.toList_inj] using h

theorem listQueryName_injective : Function.Injective listQueryName :=
  fun s t h => by simpa [listQueryName, ← String.toList_inj] using h

theorem validatorName_ne_listQueryName (s t : String) : validatorName s ≠ listQueryName t := by
  intro h
  have hfirst := congrArg (fun name : String => name.toList.head?) h
  simp [validatorName, listQueryName] at hfirst

theorem columnsName_ne_statementsName (s t : String) : columnsName s ≠ statementsName t := by
  intro h
  have hlast := congrArg (fun name : String => name.toList.reverse.take 2) h
  simp [columnsName, statementsName] at hlast

theorem columnsName_ne_listQueryName (s t : String) : columnsName s ≠ listQueryName t := by
  intro h
  have hlast := congrArg (fun name : String => name.toList.reverse.head?) h
  simp [columnsName, listQueryName] at hlast

theorem statementsName_ne_listQueryName (s t : String) : statementsName s ≠ listQueryName t := by
  intro h
  have hlast := congrArg (fun name : String => name.toList.reverse.head?) h
  simp [statementsName, listQueryName] at hlast

/-- A text before a name and a text behind another one give the same only if
either stands at its place in both, where the one has no character that the
other begins with. -/
theorem append_eq_append_iff_of_not_mem {front back s t : String} {c : Char}
    (hback : back.toList.head? = some c) (hfront : c ∉ front.toList) :
    front ++ s = t ++ back ↔ ∃ x, t = front ++ x ∧ s = x ++ back := by
  constructor
  · intro h
    rw [← String.toList_inj, String.toList_append, String.toList_append,
      List.append_eq_append_iff] at h
    rcases h with ⟨x, ht, hs⟩ | ⟨x, hx, hb⟩
    · refine ⟨String.ofList x, ?_, ?_⟩
      · simp [← String.toList_inj, ht]
      · simp [← String.toList_inj, hs]
    · cases x with
      | nil =>
          refine ⟨"", ?_, ?_⟩
          · simp [← String.toList_inj, hx]
          · simp [← String.toList_inj, hb]
      | cons d rest =>
          rw [hb, List.cons_append, List.head?_cons, Option.some.injEq] at hback
          rw [hx, hback] at hfront
          exact absurd (List.mem_append_right _ List.mem_cons_self) hfront
  · rintro ⟨x, rfl, rfl⟩
    exact (String.append_assoc ..).symm

/-- A validator meets statements only where the name of one schema is made from
that of the other in a certain way. -/
theorem validatorName_eq_statementsName_iff {s t : String} :
    validatorName s = statementsName t ↔ ∃ x, t = "validate" ++ x ∧ s = x ++ "Statements" :=
  append_eq_append_iff_of_not_mem rfl (by decide)

theorem validatorName_eq_columnsName_iff {s t : String} :
    validatorName s = columnsName t ↔ ∃ x, t = "validate" ++ x ∧ s = x ++ "Columns" :=
  append_eq_append_iff_of_not_mem rfl (by decide)

end Code

namespace Server

open Code

/-- Whether the validator of one schema has the name of the columns or the
statements of another. -/
def Meets (s t : String) : Prop :=
  validatorName s = columnsName t ∨ validatorName s = statementsName t

theorem Meets.ne {s t : String} (h : Meets s t) : s ≠ t := by
  rintro rfl
  -- The texts before and behind the name are not of the same length.
  rcases h with h | h
  all_goals
    have hlength := congrArg (fun name : String => name.toList.length) h
    simp [validatorName, columnsName, statementsName] at hlength

/-- A schema does not meet itself, so the names of one section are different. -/
theorem nodup_sectionNames (s : String) : (sectionNames s).Nodup := by
  have hcolumns : validatorName s ≠ columnsName s := fun h => Meets.ne (.inl h) rfl
  have hstatements : validatorName s ≠ statementsName s := fun h => Meets.ne (.inr h) rfl
  simp [sectionNames, hcolumns, hstatements, validatorName_ne_listQueryName,
    columnsName_ne_statementsName, columnsName_ne_listQueryName, statementsName_ne_listQueryName]

/-- Two schemas have a name in common only in these ways. -/
theorem eq_or_meets_of_mem {s t name : String} (hs : name ∈ sectionNames s)
    (ht : name ∈ sectionNames t) : s = t ∨ Meets s t ∨ Meets t s := by
  simp only [sectionNames, List.mem_cons, List.not_mem_nil, or_false] at hs ht
  rcases hs with rfl | rfl | rfl | rfl <;> rcases ht with h | h | h | h
  · exact .inl (validatorName_injective h)
  · exact .inr (.inl (.inl h))
  · exact .inr (.inl (.inr h))
  · exact absurd h (validatorName_ne_listQueryName s t)
  · exact .inr (.inr (.inl h.symm))
  · exact .inl (columnsName_injective h)
  · exact absurd h (columnsName_ne_statementsName s t)
  · exact absurd h (columnsName_ne_listQueryName s t)
  · exact .inr (.inr (.inr h.symm))
  · exact absurd h.symm (columnsName_ne_statementsName t s)
  · exact .inl (statementsName_injective h)
  · exact absurd h (statementsName_ne_listQueryName s t)
  · exact absurd h.symm (validatorName_ne_listQueryName t s)
  · exact absurd h.symm (columnsName_ne_listQueryName t s)
  · exact absurd h.symm (statementsName_ne_listQueryName t s)
  · exact .inl (listQueryName_injective h)

theorem not_disjoint_of_meets {s t : String} (h : Meets s t) :
    ¬ (sectionNames s).Disjoint (sectionNames t) := by
  intro hdisjoint
  rcases h with h | h
  · exact hdisjoint List.mem_cons_self (by simp [sectionNames, h])
  · exact hdisjoint List.mem_cons_self (by simp [sectionNames, h])

/-- The names of some schemas are different exactly if no two of them meet. -/
theorem nodup_flatMap_sectionNames {schemas : List String} (h : schemas.Nodup) :
    (schemas.flatMap sectionNames).Nodup ↔ ∀ s ∈ schemas, ∀ t ∈ schemas, ¬ Meets s t := by
  rw [List.nodup_flatMap]
  constructor
  · rintro ⟨-, hdisjoint⟩ s hs t ht hmeets
    have hsymm : Std.Symm (Function.onFun List.Disjoint sectionNames) :=
      ⟨fun _ _ hdisjoint _ hs ht => hdisjoint ht hs⟩
    exact not_disjoint_of_meets hmeets (hdisjoint.forall hs ht hmeets.ne)
  · intro hmeets
    refine ⟨fun s _ => nodup_sectionNames s, h.imp_of_mem fun {s t} hs ht hne => ?_⟩
    intro name hname hname'
    rcases eq_or_meets_of_mem hname hname' with heq | hmeet | hmeet
    · exact hne heq
    · exact hmeets s hs t ht hmeet
    · exact hmeets t ht s hs hmeet

def fixedNames : List String := runtimeImports ++ ["migrations", "prepareTables", "createHandlers"]

/-- The first character of a name and its last ones, from the last one on. -/
def outline (name : String) : Option Char × List Char :=
  (name.toList.head?, name.toList.reverse.take 3)

theorem not_mem_fixedNames {s name : String} (h : name ∈ sectionNames s) : name ∉ fixedNames := by
  intro hfixed
  have houtline := List.mem_map_of_mem (f := outline) hfixed
  simp only [sectionNames, List.mem_cons, List.not_mem_nil, or_false] at h
  rcases h with rfl | rfl | rfl | rfl
  · simp [fixedNames, runtimeImports, outline, validatorName] at houtline
  · simp [fixedNames, runtimeImports, outline, columnsName] at houtline
  · simp [fixedNames, runtimeImports, outline, statementsName] at houtline
  · simp [fixedNames, runtimeImports, outline, listQueryName] at houtline

/-- Two of some schemas meet if the one is called `validate` with something
behind, and the other is called by this with `Columns` or `Statements`
behind. -/
theorem exists_meets_iff {schemas : List String} :
    (∃ s ∈ schemas, ∃ t ∈ schemas, Meets s t) ↔
      ∃ x, "validate" ++ x ∈ schemas ∧
        (x ++ "Columns" ∈ schemas ∨ x ++ "Statements" ∈ schemas) := by
  simp only [Meets, validatorName_eq_columnsName_iff, validatorName_eq_statementsName_iff]
  constructor
  · rintro ⟨s, hs, t, ht, ⟨x, rfl, rfl⟩ | ⟨x, rfl, rfl⟩⟩
    · exact ⟨x, ht, .inl hs⟩
    · exact ⟨x, ht, .inr hs⟩
  · rintro ⟨x, ht, hs | hs⟩
    · exact ⟨_, hs, _, ht, .inl ⟨x, rfl, rfl⟩⟩
    · exact ⟨_, hs, _, ht, .inr ⟨x, rfl, rfl⟩⟩

theorem mem_takenNames_of_mem_fixedNames {t : Tree} {name : String} (h : name ∈ fixedNames) :
    name ∈ takenNames t := by
  simp only [fixedNames, takenNames, List.mem_append, List.mem_cons, List.not_mem_nil,
    or_false] at h ⊢
  tauto

theorem mem_takenNames_of_mem_sectionNames {t : Tree} {s : Schema} (hs : s ∈ t.schemas)
    {name : String} (h : name ∈ sectionNames s.name) : name ∈ takenNames t := by
  refine List.mem_append_right _ (List.mem_flatMap.mpr ⟨s, hs, ?_⟩)
  simp only [sectionNames, schemaNames, List.mem_cons, List.not_mem_nil, or_false] at h ⊢
  tauto

/-- What a module declares is different if the names of its schemas are. -/
theorem nodup_moduleNames {t : Tree} (hkeys : t.DistinctKeys)
    (hactions : ∀ a ∈ t.actions, a.name ∉ takenNames t) :
    (moduleNames t).Nodup ↔ (t.schemas.flatMap fun s => sectionNames s.name).Nodup := by
  have hperm : (moduleNames t).Perm (fixedNames
      ++ ((t.schemas.flatMap fun s => sectionNames s.name) ++ t.actions.map Action.name)) := by
    simp only [moduleNames, fixedNames, List.append_assoc]
    refine List.Perm.append_left _ ?_
    rw [← List.append_assoc]
    exact List.perm_append_comm
  have hfixed : fixedNames.Nodup := by decide
  rw [hperm.nodup_iff, List.nodup_append, List.nodup_append]
  constructor
  · exact fun h => h.2.1.1
  · intro h
    refine ⟨hfixed, ⟨h, hkeys.actions, ?_⟩, ?_⟩
    · rintro name hname _ haction rfl
      obtain ⟨s, hs, hname⟩ := List.mem_flatMap.mp hname
      obtain ⟨a, ha, rfl⟩ := List.mem_map.mp haction
      exact hactions a ha (mem_takenNames_of_mem_sectionNames hs hname)
    · rintro name hname _ hother rfl
      rcases List.mem_append.mp hother with hother | hother
      · obtain ⟨s, -, hsection⟩ := List.mem_flatMap.mp hother
        exact not_mem_fixedNames hsection hname
      · obtain ⟨a, ha, rfl⟩ := List.mem_map.mp hother
        exact hactions a ha (mem_takenNames_of_mem_fixedNames hname)

end Server

namespace Tree

/-- What is loaded has no two schemas and no two actions of one name, since a
later one is left out. -/
theorem distinctKeys_of_load {files : FileTree} {entry root : String} {t : Tree}
    (h : load files entry root = .ok t) : t.DistinctKeys := by
  simp only [load, Except.bind_eq_ok_iff] at h
  obtain ⟨_, -, loaded, -, h⟩ := h
  obtain rfl := Except.ok.inj h
  exact distinctKeys_merge _

/-- The names that the module of a loaded tree declares at its top level are
those that it imports, those of its schemas and its actions, and three more.
They are different unless the names of two schemas are `validate` before
something and the same something before `Columns` or `Statements`. -/
theorem topLevelNames_nodup_iff {files : FileTree} {entry root : String} {t : Tree}
    (hload : load files entry root = .ok t) {options : EmitOptions} {artifacts : Artifacts}
    (hemit : t.emit options = .ok artifacts) :
    Code.topLevelNames artifacts.server = Server.moduleNames t ∧
    ((Code.topLevelNames artifacts.server).Nodup ↔
      ¬ ∃ x, "validate" ++ x ∈ t.schemas.map Schema.name ∧
        (x ++ "Columns" ∈ t.schemas.map Schema.name ∨
          x ++ "Statements" ∈ t.schemas.map Schema.name)) := by
  have hkeys := distinctKeys_of_load hload
  have hemittable := emittable_of_emit hemit
  obtain ⟨-, ps, hps, hrender⟩ := exists_pieces_of_emit hemit
  have hnames : Code.topLevelNames artifacts.server = Server.moduleNames t := by
    rw [hrender]
    exact (Server.declares_pieces hps (Modules.wellRead_of_load hload)).binds.topLevelNames_eq
  refine ⟨hnames, ?_⟩
  rw [hnames, Server.nodup_moduleNames hkeys fun a ha => (hemittable.actions a ha).free,
    ← Server.exists_meets_iff, ← List.flatMap_map, Server.nodup_flatMap_sectionNames hkeys.schemas]
  simp only [not_exists, not_and]

/-- A project with two schemas of which one has its columns where the other has
its validator. -/
def clashingSchemas : FileTree :=
  ⟨[(["main.bs"], .file (Text.bytes "data XColumns {} data validateX {}"))], []⟩

/-- Two schemas whose names are not the same but clash, in a project that is
loaded and generated. -/
theorem topLevelNames_nodup_iff_clash :
    ∃ t artifacts, load clashingSchemas "main" "/" = .ok t ∧ t.emit {} = .ok artifacts ∧
      ¬ (Code.topLevelNames artifacts.server).Nodup := by
  have hload : load clashingSchemas "main" "/" =
      .ok { schemas := [⟨"XColumns", [], 1⟩, ⟨"validateX", [], 1⟩] } := by decide +kernel
  obtain ⟨artifacts, hemit⟩ := (reports_emit {} _).ok_iff.mpr
    (show violations { schemas := [⟨"XColumns", [], 1⟩, ⟨"validateX", [], 1⟩] } = [] from rfl)
  refine ⟨_, artifacts, hload, hemit, ?_⟩
  rw [(topLevelNames_nodup_iff hload hemit).2, not_not]
  exact ⟨"X", by decide, .inl (by decide)⟩

end Tree

end BlockLang
