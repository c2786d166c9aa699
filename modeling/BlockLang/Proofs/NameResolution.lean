import BlockLang.Proofs.BlockRecognition
import BlockLang.Proofs.ModuleScopes
import BlockLang.Proofs.NameClashes

/-! # What names resolve to

Every name that a module uses outside of its actions is there for something: an import, a
declaration for a schema, an action, a function of the module or an object that is built into the
language. A name resolves to that unless something else of the module has the name. Actions may not
have the names of what is imported or declared, but they may have those of built-in objects.
-/

namespace BlockLang

open Text

/-! ## Names of trees that were read -/

namespace Scan

open Scopes

/-- What holds of the first 256 numbers holds of all bytes. -/
theorem forall_byte {p : UInt8 → Prop} (h : ∀ n < 256, p (UInt8.ofNat n)) (b : UInt8) : p b := by
  have hb := h b.toNat b.toNat_lt
  rwa [UInt8.ofNat_toNat] at hb

theorem encode_wordPart : ∀ b : UInt8, isWordPart b = true →
    String.utf8EncodeChar (Char.ofNat b.toNat) = [b] :=
  forall_byte (by decide +kernel)

/-- The words of a source begin like names of the generated language. -/
theorem isNameStart_of_isWordStart : ∀ b : UInt8, isWordStart b = true →
    Script.isNameStart (Char.ofNat b.toNat) = true :=
  forall_byte (by decide +kernel)

/-- A word of a source is a name of the generated language, unless it is
reserved there. -/
theorem isName_ofBytes {b : UInt8} {bs : List UInt8} (hb : isWordStart b = true)
    (hbs : ∀ c ∈ bs, isWordPart c = true) : IsName (Text.ofBytes (b :: bs)) := by
  have hparts : ∀ c ∈ b :: bs, isWordPart c = true :=
    List.forall_mem_cons.mpr ⟨isWordPart_of_isWordStart hb, hbs⟩
  have hbytes : bytes (String.ofList ((b :: bs).map fun c => Char.ofNat c.toNat)) = b :: bs := by
    have hencode := List.flatMap_congr fun c hc => encode_wordPart c (hparts c hc)
    rw [bytes_ofList, List.flatMap_map, hencode, List.flatMap_singleton']
  have htext : Text.ofBytes (b :: bs) =
      String.ofList ((b :: bs).map fun c => Char.ofNat c.toNat) := by
    rw [← hbytes, ofBytes_bytes, hbytes]
  have hword : IsWord (Text.ofBytes (b :: bs)) := isWord_ofBytes hparts
  have hname := Script.isNamePart_of_isWord hword
  rw [htext, String.toList_ofList, List.map_cons, List.forall_mem_cons] at hname
  exact ⟨_, _, by rw [htext, String.toList_ofList, List.map_cons],
    isNameStart_of_isWordStart b hb, hname.2⟩

/-- Every word among the tokens of a source is a name, wherever the reading of
tokens began. -/
theorem isName_of_mem {p : Position} {skip : Nat} {bs : List UInt8} {t : Token}
    (h : t ∈ tokensFrom p skip bs) (hkind : t.kind.isWord = true) : IsName t.text := by
  obtain ⟨b, rest, hread⟩ := exists_read_of_mem h
  obtain ⟨hstart, htext⟩ := eq_ofBytes_of_read hread hkind
  rw [htext]
  exact isName_ofBytes hstart fun _ hmem => List.mem_takeWhile_imp hmem

end Scan

/-- Whether the schemas and the actions of a tree have names. -/
structure Tree.Identified (t : Tree) : Prop where
  schemas : ∀ s ∈ t.schemas, Scopes.IsName s.name
  actions : ∀ a ∈ t.actions, Scopes.IsName a.name

namespace Parser

variable {source : List UInt8}

/-- The block of a schema or an action takes its name from a word, and the
others have none to give. -/
theorem identified_of_block {m : Nat} {t : Token} {items : List Token} {tree : Tree}
    {later : Tokens} (hitems : (Tokens.behind source m).items = t :: items)
    (h : block source t ⟨items, (Tokens.behind source m).stop⟩ = .ok (tree, later)) :
    tree.Identified := by
  -- Names are texts of words, and no word that was scanned begins with a digit.
  have hname : ∀ u ∈ items, u.kind.isWord = true → Scopes.IsName u.text := by
    intro u hu
    have hmem : u ∈ (Tokens.behind source m).items := by
      rw [hitems]
      exact List.mem_cons_of_mem t hu
    exact Scan.isName_of_mem hmem
  rcases block_cases h with ⟨used, hused, hblock⟩ | ⟨-, a, rfl, haction⟩ | rfl
  · cases hblock with
    | data _ hword =>
        refine ⟨?_, by simp⟩
        simp only [List.mem_singleton, forall_eq]
        refine hname _ ?_ hword
        rw [show items = _ from hused]
        simp
    | route | migration | importing => exact ⟨by simp, by simp⟩
  · refine ⟨by simp [ofAction], ?_⟩
    simp only [ofAction, List.mem_singleton, forall_eq]
    obtain ⟨_, _, _, _, hsignature, -⟩ := action_eq_ok_iff.mp haction
    simp only [signature, Except.bind_eq_ok_iff] at hsignature
    obtain ⟨⟨name, rest⟩, hfirst, _, -, _, -, hlast⟩ := hsignature
    obtain ⟨u, hu, haccept⟩ := expect_eq_ok_iff.mp hfirst
    obtain ⟨hword, rfl⟩ := word_eq_some_iff.mp haccept
    have htext : u.text = a.name := congrArg (·.1.1) (Except.ok.inj hlast)
    rw [← htext]
    exact hname u (hu ▸ List.mem_cons_self) hword
  · exact ⟨by simp, by simp⟩

/-- All blocks that are read from a source leave schemas and actions with names,
block by block. -/
theorem Reads.identified {m : Nat} {tree : Tree} {last : Tokens}
    (h : Reads source (Tokens.behind source m) tree last) : tree.Identified := by
  refine h.forall_blocks ⟨by simp, by simp⟩ ?_ identified_of_block
  intro t u ht hu
  exact ⟨List.forall_mem_append.mpr ⟨ht.schemas, hu.schemas⟩,
    List.forall_mem_append.mpr ⟨ht.actions, hu.actions⟩⟩

theorem identified_of_ofSource {source : String} {tree : Tree}
    (h : Tree.ofSource source = .ok tree) : tree.Identified := by
  obtain ⟨last, hreads, -⟩ := ofBytes_eq_ok_iff.mp h
  rw [← Tokens.behind_zero] at hreads
  exact hreads.identified

end Parser

namespace Tree

def WasRead (t : Tree) : Prop :=
  (∃ source, ofSource source = .ok t) ∨ ∃ files entry root, load files entry root = .ok t

variable {t : Tree}

/-- A loaded tree has the schemas and actions of its files, each of which was
read from a source. -/
theorem identified_of_load {files : FileTree} {entry root : String}
    (h : load files entry root = .ok t) : t.Identified := by
  simp only [load, Except.bind_eq_ok_iff] at h
  obtain ⟨_, -, loaded, hload, h⟩ := h
  obtain rfl := Except.ok.inj h
  have htrees : ∀ tree ∈ loaded.map Prod.snd, tree.Identified := by
    intro tree htree
    obtain ⟨⟨file, tree⟩, hmem, rfl⟩ := List.mem_map.mp htree
    have hread := Modules.load_wereRead hload (by simp [Modules.Loaded.WereRead]) _ hmem
    unfold Modules.readTree at hread
    split at hread
    · cases hread
    · exact Parser.identified_of_ofSource (Except.mapError_eq_ok_iff.mp hread)
  refine ⟨fun s hs => ?_, fun a ha => ?_⟩
  · obtain ⟨tree, htree, hmem⟩ := List.mem_flatMap.mp (Modules.mem_of_mem_firsts hs)
    exact (htrees tree htree).schemas s hmem
  · obtain ⟨tree, htree, hmem⟩ := List.mem_flatMap.mp (Modules.mem_of_mem_firsts ha)
    exact (htrees tree htree).actions a hmem

theorem WasRead.identified (h : t.WasRead) : t.Identified := by
  obtain ⟨_, h⟩ | ⟨_, _, _, h⟩ := h
  · exact Parser.identified_of_ofSource h
  · exact identified_of_load h

theorem WasRead.wellRead (h : t.WasRead) : t.WellRead := by
  obtain ⟨_, h⟩ | ⟨_, _, _, h⟩ := h
  · exact Parser.wellRead_of_ofSource h
  · exact Modules.wellRead_of_load h

/-- All that the code of a tree names can be a name there, if code can be
generated: what a route names was looked up, and actions are not reserved. -/
theorem Identified.nameable (h : t.Identified) (hemittable : t.Emittable) : Server.Nameable t := by
  refine ⟨h.schemas, fun r hr step hstep => ?_⟩
  have hresolved := hemittable.routes r hr
  cases step with
  | auth => trivial
  | validate name =>
      obtain ⟨s, hs, rfl⟩ := hresolved.schemas name hstep
      exact h.schemas s hs
  | action name =>
      obtain ⟨a, ha, rfl⟩ := hresolved.actions name hstep
      have hdeclarable := hemittable.actions a ha
      refine ⟨⟨h.actions a ha, hdeclarable.name⟩, fun hlocal => hdeclarable.free ?_⟩
      exact List.mem_append_left _ (List.mem_append_right _ hlocal)

end Tree

/-! ## What names are there for -/

namespace Server

open Code

/-- What a name of a module is there for. -/
inductive Origin where
  | builtIn
  | imported
  | own
  | schema (name : String)
  | action (name : String)
  deriving DecidableEq, Repr

def builtIns : List String := ["Object", "Array", "Number", "Boolean", "RegExp", "undefined"]

def fixed (name : String) : String × Origin :=
  (name, if name ∈ runtimeImports then .imported else if name ∈ fixedNames then .own else .builtIn)

def stepReferences : Step → List (String × Origin)
  | .auth => [fixed "authGate"]
  | .validate schema => [(validatorName schema, .schema schema)]
  | .action name => [(name, .action name), fixed "undefined"]

namespace Part

def declarations (t : Tree) : Part → List (String × Origin)
  | header | title _ => []
  | importing => runtimeImports.map fixed
  | validator s => [(validatorName s.name, .schema s.name)]
  | columns s => [(columnsName s.name, .schema s.name)]
  | statements s => [(statementsName s.name, .schema s.name)]
  | listing s => [(listQueryName s.name, .schema s.name)]
  | actions => t.actions.map fun a => (a.name, .action a.name)
  | migrations => [fixed "migrations"]
  | tables => [fixed "prepareTables"]
  | handlers => [fixed "createHandlers"]

def references (t : Tree) : Part → List (String × Origin)
  | header | title _ | importing | actions => []
  | validator s => (validatorUses (s.checks.toOption.getD [])).map fixed
  | columns _ | statements _ | migrations => [fixed "Object"]
  | listing s =>
      [fixed "Object", (columnsName s.name, .schema s.name), fixed "ValidationFailure",
        (columnsName s.name, .schema s.name), fixed "ValidationFailure"]
  | tables =>
      fixed "Object" :: t.schemas.flatMap fun s =>
        [fixed "tableAccess", (statementsName s.name, .schema s.name)]
  | handlers =>
      fixed "prepareTables" :: t.routes.flatMap fun r =>
        r.pipeline.flatMap stepReferences ++ [fixed "normalizeError"]

theorem map_fst_declarations (t : Tree) (p : Part) :
    (p.declarations t).map Prod.fst = p.declared t := by
  cases p with
  | importing | actions => simp [declarations, declared, fixed, Function.comp_def]
  | _ => rfl

theorem map_fst_references (t : Tree) (p : Part) :
    (p.references t).map Prod.fst = p.used t := by
  have hsteps (step : Step) : (stepReferences step).map Prod.fst = stepUses step := by
    cases step <;> rfl
  cases p with
  | validator s => simp [references, used, fixed, Function.comp_def]
  | tables => simp [references, used, fixed, tableUses, List.map_flatMap]
  | handlers => simp [references, used, fixed, handlerUses, List.map_flatMap, hsteps]
  | _ => rfl

end Part

def declarations (t : Tree) : List (String × Origin) := (parts t).flatMap (Part.declarations t)

/-- What a module uses of that and of the language, besides its actions. -/
def references (t : Tree) : List (String × Origin) := (parts t).flatMap (Part.references t)

/-- Whether a name of a module is declared for what it is there for, and for
nothing else. -/
def Resolves (t : Tree) (u : String × Origin) : Prop :=
  ∀ o, (u.1, o) ∈ declarations t ↔ o = u.2 ∧ o ≠ .builtIn

theorem map_fst_declarations (t : Tree) : (declarations t).map Prod.fst = moduleNames t := by
  rw [declarations, List.map_flatMap, funext (Part.map_fst_declarations t)]
  simp [parts, Part.declared, moduleNames, sectionNames, List.flatMap_assoc]

theorem map_fst_references (t : Tree) :
    (references t).map Prod.fst = (partsBefore t ++ partsBehind).flatMap (Part.used t) := by
  rw [references, List.map_flatMap, funext (Part.map_fst_references t), parts_eq]
  simp [Part.used]

/-- What a module declares: what it imports, four names for each schema, one for
each action, and three of its own. -/
theorem declarations_eq (t : Tree) :
    declarations t = runtimeImports.map fixed
      ++ (t.schemas.flatMap fun s => (sectionNames s.name).map fun name => (name, .schema s.name))
      ++ (t.actions.map fun a => (a.name, .action a.name))
      ++ ["migrations", "prepareTables", "createHandlers"].map fixed := by
  simp [declarations, parts, Part.declarations, sectionNames, List.flatMap_assoc]

variable {t : Tree} {name : String}

/-- A name is declared for one of three reasons. -/
theorem mem_declarations_iff {o : Origin} :
    (name, o) ∈ declarations t ↔ (name ∈ fixedNames ∧ o = (fixed name).2)
      ∨ (∃ s ∈ t.schemas, name ∈ sectionNames s.name ∧ o = .schema s.name)
      ∨ ∃ a ∈ t.actions, name = a.name ∧ o = .action a.name := by
  have hfixed (names : List String) :
      (name, o) ∈ names.map fixed ↔ name ∈ names ∧ o = (fixed name).2 := by
    simp [fixed, eq_comm]
  simp only [declarations_eq, List.mem_append, hfixed, fixedNames, List.mem_flatMap, List.mem_map,
    Prod.mk.injEq, or_and_right]
  constructor
  · rintro (((h | ⟨s, hs, _, hname, rfl, rfl⟩) | ⟨a, ha, rfl, rfl⟩) | h)
    · exact .inl (.inl h)
    · exact .inr (.inl ⟨s, hs, hname, rfl⟩)
    · exact .inr (.inr ⟨a, ha, rfl, rfl⟩)
    · exact .inl (.inr h)
  · rintro ((h | h) | ⟨s, hs, hname, rfl⟩ | ⟨a, ha, rfl, rfl⟩)
    · exact .inl (.inl (.inl h))
    · exact .inr h
    · exact .inl (.inl (.inr ⟨s, hs, name, hname, rfl, rfl⟩))
    · exact .inl (.inr ⟨a, ha, rfl, rfl⟩)

theorem ne_builtIn_of_mem {o : Origin} (h : (name, o) ∈ declarations t) : o ≠ .builtIn := by
  rcases mem_declarations_iff.mp h with ⟨hname, rfl⟩ | ⟨s, -, -, rfl⟩ | ⟨a, -, -, rfl⟩
  · intro ho
    simp only [fixed, hname, if_true] at ho
    split at ho <;> cases ho
  · exact Origin.noConfusion
  · exact Origin.noConfusion

/-! ## What the parts use -/

/-- Whether a name of a module is declared there or of the language. -/
def Grounded (t : Tree) (u : String × Origin) : Prop :=
  u ∈ declarations t ∨ u ∈ builtIns.map fixed

theorem grounded_fixed (t : Tree) (h : name ∈ builtIns ++ fixedNames) :
    Grounded t (fixed name) := by
  rcases List.mem_append.mp h with h | h
  · exact .inr (List.mem_map_of_mem h)
  · exact .inl (mem_declarations_iff.mpr (.inl ⟨h, rfl⟩))

theorem grounded_section {s : Schema} (hs : s ∈ t.schemas)
    (h : name ∈ sectionNames s.name) : Grounded t (name, .schema s.name) :=
  .inl (mem_declarations_iff.mpr (.inr (.inl ⟨s, hs, h, rfl⟩)))

theorem guardUses_subset (g : Guard) : guardUses g ⊆ builtIns ++ fixedNames := by
  have hregexp : ["RegExp", "ValidationFailure"] ⊆ builtIns ++ fixedNames := by decide
  have hnumber : ["Number", "ValidationFailure"] ⊆ builtIns ++ fixedNames := by decide
  have hfailure : ["ValidationFailure"] ⊆ builtIns ++ fixedNames := by decide
  cases g with
  | fits | hasFormat => exact hregexp
  | isNumber | isWhole => exact hnumber
  | _ => exact hfailure

theorem checkUses_subset (c : Check) : checkUses c ⊆ builtIns ++ fixedNames := by
  have hguards : c.guards.flatMap guardUses ⊆ builtIns ++ fixedNames := by
    intro name hname
    obtain ⟨g, -, hname⟩ := List.mem_flatMap.mp hname
    exact guardUses_subset g hname
  refine List.append_subset.mpr ⟨List.append_subset.mpr ⟨by decide, ?_⟩, ?_⟩
  · split <;> decide
  · cases c.kind with
    | text | passthrough => exact hguards
    | integer | number => exact List.cons_subset.mpr ⟨by decide, hguards⟩
    | boolean => exact List.cons_subset.mpr ⟨by decide, List.nil_subset _⟩

theorem validatorUses_subset (checks : List Check) :
    validatorUses checks ⊆ builtIns ++ fixedNames := by
  refine List.append_subset.mpr ⟨by decide, fun name hname => ?_⟩
  obtain ⟨c, -, hname⟩ := List.mem_flatMap.mp hname
  exact checkUses_subset c hname

theorem grounded_of_mem_stepReferences {r : Route} (h : r.Resolved t) {step : Step}
    (hstep : step ∈ r.pipeline) {u : String × Origin} (hu : u ∈ stepReferences step) :
    Grounded t u := by
  cases step with
  | auth =>
      obtain rfl := List.mem_singleton.mp hu
      exact grounded_fixed t (by decide)
  | validate name =>
      obtain rfl := List.mem_singleton.mp hu
      obtain ⟨s, hs, rfl⟩ := h.schemas name hstep
      exact grounded_section hs (by simp [sectionNames])
  | action name =>
      obtain ⟨a, ha, rfl⟩ := h.actions name hstep
      simp only [stepReferences, List.mem_cons, List.not_mem_nil, or_false] at hu
      rcases hu with rfl | rfl
      · exact .inl (mem_declarations_iff.mpr (.inr (.inr ⟨a, ha, rfl, rfl⟩)))
      · exact grounded_fixed t (by decide)

/-- All that a module uses is declared there or of the language, if its routes
are resolved. -/
theorem grounded_of_mem_references (h : ∀ r ∈ t.routes, r.Resolved t) {u : String × Origin}
    (hu : u ∈ references t) : Grounded t u := by
  obtain ⟨p, hp, hu⟩ := List.mem_flatMap.mp hu
  have hobject : Grounded t (fixed "Object") := grounded_fixed t (by decide)
  -- Each part refers to names of its own schema, to fixed ones and, for a route, to its steps'.
  cases p with
  | header | title | importing | actions => cases hu
  | validator s =>
      obtain ⟨name, hname, rfl⟩ := List.mem_map.mp hu
      exact grounded_fixed t (validatorUses_subset _ hname)
  | columns | statements | migrations =>
      obtain rfl := List.mem_singleton.mp hu
      exact hobject
  | listing s =>
      have hs : s ∈ t.schemas := by simpa [parts] using hp
      have hcolumns : Grounded t (columnsName s.name, .schema s.name) :=
        grounded_section hs (by simp [sectionNames])
      have hfailure : Grounded t (fixed "ValidationFailure") := grounded_fixed t (by decide)
      simp only [Part.references, List.mem_cons, List.not_mem_nil, or_false] at hu
      rcases hu with rfl | rfl | rfl | rfl | rfl
      all_goals assumption
  | tables =>
      simp only [Part.references, List.mem_cons, List.mem_flatMap, List.not_mem_nil, or_false] at hu
      rcases hu with rfl | ⟨s, hs, rfl | rfl⟩
      · exact hobject
      · exact grounded_fixed t (by decide)
      · exact grounded_section hs (by simp [sectionNames])
  | handlers =>
      simp only [Part.references, List.mem_cons, List.mem_flatMap, List.mem_append,
        List.not_mem_nil, or_false] at hu
      rcases hu with rfl | ⟨r, hr, ⟨step, hstep, hu⟩ | rfl⟩
      · exact grounded_fixed t (by decide)
      · exact grounded_of_mem_stepReferences (h r hr) hstep hu
      · exact grounded_fixed t (by decide)

/-! ## What names resolve to -/

section Resolution

variable {t : Tree}

variable {name : String}

/-- A name that all modules declare is declared for nothing else, since actions
may not take it and names of schemas look different. -/
theorem eq_of_mem_fixedNames (hactions : ∀ a ∈ t.actions, a.name ∉ takenNames t)
    (h : name ∈ fixedNames) {o : Origin} (hmem : (name, o) ∈ declarations t) :
    o = (fixed name).2 := by
  rcases mem_declarations_iff.mp hmem with ⟨-, ho⟩ | ⟨s, -, hname, -⟩ | ⟨a, ha, rfl, -⟩
  · exact ho
  · exact absurd h (not_mem_fixedNames hname)
  · exact absurd (mem_takenNames_of_mem_fixedNames h) (hactions a ha)

theorem eq_of_mem_actions {a : Action} (h : a.name ∉ takenNames t) {o : Origin}
    (hmem : (a.name, o) ∈ declarations t) : o = .action a.name := by
  rcases mem_declarations_iff.mp hmem with ⟨hname, -⟩ | ⟨s, hs, hname, -⟩ | ⟨b, -, hname, ho⟩
  · exact absurd (mem_takenNames_of_mem_fixedNames hname) h
  · exact absurd (mem_takenNames_of_mem_sectionNames hs hname) h
  · rw [ho, hname]

/-- The names of a schema are declared for it alone where no two schemas
meet. -/
theorem eq_of_mem_sectionNames (hactions : ∀ a ∈ t.actions, a.name ∉ takenNames t)
    (hmeets : ∀ s ∈ t.schemas, ∀ s' ∈ t.schemas, ¬ Meets s.name s'.name) {s : Schema}
    (hs : s ∈ t.schemas) (h : name ∈ sectionNames s.name) {o : Origin}
    (hmem : (name, o) ∈ declarations t) : o = .schema s.name := by
  rcases mem_declarations_iff.mp hmem with ⟨hname, -⟩ | ⟨s', hs', hname, ho⟩ | ⟨a, ha, rfl, -⟩
  · exact absurd hname (not_mem_fixedNames h)
  · rcases eq_or_meets_of_mem h hname with heq | hmeet | hmeet
    · rw [ho, heq]
    · exact absurd hmeet (hmeets s hs s' hs')
    · exact absurd hmeet (hmeets s' hs' s hs)
  · exact absurd (mem_takenNames_of_mem_sectionNames hs h) (hactions a ha)

/-- What is declared resolves if no two schemas meet, in each of the three cases
of a declaration. -/
theorem resolves_of_mem (hactions : ∀ a ∈ t.actions, a.name ∉ takenNames t)
    (hmeets : ∀ s ∈ t.schemas, ∀ s' ∈ t.schemas, ¬ Meets s.name s'.name) {u : String × Origin}
    (h : u ∈ declarations t) : Resolves t u := by
  intro o
  constructor
  · intro hmem
    refine ⟨?_, ne_builtIn_of_mem hmem⟩
    rcases mem_declarations_iff.mp h with ⟨hname, ho⟩ | ⟨s, hs, hname, ho⟩ | ⟨a, ha, hname, ho⟩
    · rw [ho]
      exact eq_of_mem_fixedNames hactions hname hmem
    · rw [ho]
      exact eq_of_mem_sectionNames hactions hmeets hs hname hmem
    · rw [ho]
      exact eq_of_mem_actions (hactions a ha) (hname ▸ hmem)
  · rintro ⟨rfl, -⟩
    exact h

theorem free_of_mem_builtIns :
    ∀ name ∈ builtIns, name ∉ fixedNames ∧ (fixed name).2 = .builtIn := by decide

theorem looksDeclared_of_mem_sectionNames {s : String} (h : name ∈ sectionNames s) :
    looksDeclared name = true := by
  simp only [sectionNames, List.mem_cons, List.not_mem_nil, or_false] at h
  rcases h with rfl | rfl | rfl | rfl
  · exact looksDeclared_validatorName s
  · exact looksDeclared_columnsName s
  · exact looksDeclared_statementsName s
  · exact looksDeclared_listQueryName s

/-- An object of the language is what its name resolves to unless an action has
the name. -/
theorem resolves_builtIn_iff (h : name ∈ builtIns) :
    Resolves t (fixed name) ↔ name ∉ t.actions.map Action.name := by
  have ⟨hfree, hfixed⟩ := free_of_mem_builtIns name h
  constructor
  · intro hresolves hmem
    obtain ⟨a, ha, rfl⟩ := List.mem_map.mp hmem
    have haction := (hresolves (.action a.name)).mp
      (mem_declarations_iff.mpr (.inr (.inr ⟨a, ha, rfl, rfl⟩)))
    rw [hfixed] at haction
    cases haction.1
  · intro hactions o
    refine iff_of_false ?_ ?_
    · intro hmem
      rcases mem_declarations_iff.mp hmem with ⟨hname, -⟩ | ⟨s, -, hname, -⟩ | ⟨a, ha, hname, -⟩
      · exact hfree hname
      · exact not_mem_of_looksDeclared (looksDeclared_of_mem_sectionNames hname) (by decide) h
      · exact hactions (List.mem_map.mpr ⟨a, ha, hname.symm⟩)
    · rw [hfixed]
      exact fun ho => ho.2 ho.1

/-- The columns and the statements of a schema do not resolve if its name meets
another one: the module declares the name for both schemas. -/
theorem not_resolves_of_meets {s s' : Schema} (hs : s ∈ t.schemas) (hs' : s' ∈ t.schemas)
    (h : Meets s.name s'.name) :
    ∃ name, (name, .schema s'.name) ∈ references t ∧ ¬ Resolves t (name, .schema s'.name) := by
  have hdeclared : (validatorName s.name, .schema s.name) ∈ declarations t :=
    mem_declarations_iff.mpr (.inr (.inl ⟨s, hs, by simp [sectionNames], rfl⟩))
  -- What is used for the one schema is declared for the other one, too.
  have hno {name : String} (hname : validatorName s.name = name) :
      ¬ Resolves t (name, .schema s'.name) := by
    intro hresolves
    have hsame := ((hresolves (.schema s.name)).mp (hname ▸ hdeclared)).1
    exact h.ne (Origin.schema.inj hsame)
  rcases h with hcolumns | hstatements
  · refine ⟨_, List.mem_flatMap.mpr ⟨.listing s', by simp [parts, hs'], ?_⟩, hno hcolumns⟩
    simp [Part.references]
  · refine ⟨_, List.mem_flatMap.mpr ⟨.tables, by simp [parts], ?_⟩, hno hstatements⟩
    simp only [Part.references, List.mem_cons, List.mem_flatMap]
    exact .inr ⟨s', hs', .inr (.inl rfl)⟩

end Resolution

end Server

namespace Tree

open Server

/-- What the names resolve to that a module uses outside of its actions. No
action has the name of a local where handlers call actions, or a name that is
declared for something else. If the tree was read, then the text of the module
declares these names and its text without the actions uses these. An object of
the language is captured by an action of its name. All else resolves unless the
names of two schemas are `validate` before something and the same something
before `Columns` or `Statements`. -/
theorem references_resolve {t : Tree} {options : EmitOptions} {artifacts : Artifacts}
    (h : t.emit options = .ok artifacts) :
    (∀ a ∈ t.actions, a.name ∉ handlerLocals ∧
      ∀ o, (a.name, o) ∈ declarations t → o = .action a.name) ∧
    (t.WasRead →
      Code.topLevelNames artifacts.server = (declarations t).map Prod.fst ∧
      ∃ before behind,
        artifacts.server = before ++ Code.render (actionSection t.actions) ++ behind ∧
        (Scopes.read? (before ++ behind)).map Prod.snd = some ((references t).map Prod.fst)) ∧
    (∀ u ∈ references t, u.2 = .builtIn →
      u.1 ∈ builtIns ∧ (Resolves t u ↔ u.1 ∉ t.actions.map Action.name)) ∧
    ((∀ u ∈ references t, u.2 ≠ .builtIn → Resolves t u) ↔
      ¬ ∃ x, "validate" ++ x ∈ t.schemas.map Schema.name ∧
        (x ++ "Columns" ∈ t.schemas.map Schema.name ∨
          x ++ "Statements" ∈ t.schemas.map Schema.name)) := by
  have hemittable := emittable_of_emit h
  have hactions : ∀ a ∈ t.actions, a.name ∉ takenNames t := fun a ha =>
    (hemittable.actions a ha).free
  refine ⟨fun a ha => ⟨fun hlocal => hactions a ha ?_, fun o => eq_of_mem_actions (hactions a ha)⟩,
    fun hread => ⟨?_, ?_⟩, fun u hu ho => ?_, ?_⟩
  · exact List.mem_append_left _ (List.mem_append_right _ hlocal)
  · obtain ⟨-, ps, hps, hrender⟩ := exists_pieces_of_emit h
    rw [hrender, map_fst_declarations]
    exact (declares_pieces hps hread.wellRead).binds.topLevelNames_eq
  · refine ⟨_, _, ?_, by rw [read?_outside options (hread.identified.nameable hemittable),
      Option.map_some, map_fst_references]⟩
    rw [(server_eq_parts h).1, parts_eq, List.map_append, List.map_cons, String.join_append,
      String.join_cons, ← String.append_assoc]
    rfl
  · rcases grounded_of_mem_references hemittable.routes hu with hmem | hmem
    · exact absurd ho (ne_builtIn_of_mem hmem)
    · obtain ⟨name, hname, rfl⟩ := List.mem_map.mp hmem
      exact ⟨hname, resolves_builtIn_iff hname⟩
  · rw [← exists_meets_iff]
    constructor
    · -- Two schemas that meet declare one name twice, and the reference to it has two origins.
      rintro hresolves ⟨_, hschema, _, hschema', hmeets⟩
      obtain ⟨s, hs, rfl⟩ := List.mem_map.mp hschema
      obtain ⟨s', hs', rfl⟩ := List.mem_map.mp hschema'
      obtain ⟨name, hname, hno⟩ := not_resolves_of_meets hs hs' hmeets
      exact hno (hresolves _ hname Origin.noConfusion)
    · intro hmeets u hu ho
      have hdeclared : u ∈ declarations t := by
        refine (grounded_of_mem_references hemittable.routes hu).resolve_right fun hmem => ho ?_
        obtain ⟨name, hname, rfl⟩ := List.mem_map.mp hmem
        exact (free_of_mem_builtIns name hname).2
      refine resolves_of_mem hactions (fun s hs s' hs' hmeet => hmeets ?_) hdeclared
      exact ⟨_, List.mem_map_of_mem hs, _, List.mem_map_of_mem hs', hmeet⟩

/-- An action that code is generated for can have the name of an object of the
language. -/
theorem references_resolve_object :
    ∃ t artifacts, ofSource "do Object(input) { return input; }" = .ok t ∧
      t.emit {} = .ok artifacts ∧ ("Object", .builtIn) ∈ references t ∧
      ¬ Resolves t ("Object", .builtIn) := by
  have hread : ofSource "do Object(input) { return input; }" =
      .ok { actions := [⟨"Object", ["input"], "return input;", 1⟩] } := by decide +kernel
  obtain ⟨artifacts, hemit⟩ := (reports_emit {} _).ok_iff.mpr
    (show violations { actions := [⟨"Object", ["input"], "return input;", 1⟩] } = [] from rfl)
  refine ⟨_, artifacts, hread, hemit, by decide, fun hresolves => ?_⟩
  have hobject := (references_resolve hemit).2.2.1 ("Object", .builtIn) (by decide) rfl
  exact hobject.2.mp hresolves List.mem_cons_self

end Tree

end BlockLang
