import BlockLang.Proofs.EmissionChecks
import BlockLang.Proofs.LoadOrder

/-! # Names at the top level of a server module

A module declares a name by a line that starts in code outside of all blocks. These lines are found
in the text as it stands, so a name counts whoever wrote the line.
-/

namespace BlockLang

open Text Body

namespace Code

/-! ## Reading a module -/

def after? (start : String) (line : List UInt8) : Option (List UInt8) :=
  if (bytes start).isPrefixOf line then some (line.drop (bytes start).length) else none

def declarators : List String := ["function ", "const ", "let ", "var ", "class "]

def listedWords (bs : List UInt8) : List String :=
  (bs.splitOn ','.toUInt8).map fun part => ofBytes (part.filter Scan.isWordPart)

/-- The names that a line declares. -/
def declaredNames (line : List UInt8) : List String :=
  let inside := (after? "export " line).getD line
  let declaration := (after? "async " inside).getD inside
  match declarators.findSome? (after? · declaration), after? r"import { " line with
  | some rest, _ => [ofBytes (rest.takeWhile Scan.isWordPart)]
  | none, some rest => listedWords (rest.takeWhile (· != '}'.toUInt8))
  | none, none => []

/-- The names that a text declares outside of all blocks, where the walk through
the blocks has come to a state, and perhaps to the start of a line. -/
def namesFrom (s : State) (fresh : Bool) : List UInt8 → List String
  | [] => []
  | b :: rest =>
    (if fresh && s == ⟨.code, 1⟩ then
      declaredNames ((b :: rest).takeWhile (· != '\n'.toUInt8)) else [])
      ++ match s.step b with
        | none => []
        | some next => namesFrom next (b == '\n'.toUInt8) rest

def topLevelNames (m : String) : List String := namesFrom ⟨.code, 1⟩ true (bytes m)

/-! ## Lines and blocks -/

/-- A line declares what it starts with, if it starts in code outside of all
blocks. -/
theorem namesFrom_line {s last next : State} {bs : List UInt8} (hwalk : s.walk bs = some last)
    (hbs : ∀ b ∈ bs, b ≠ '\n'.toUInt8) (hstep : last.step '\n'.toUInt8 = some next) (fresh : Bool)
    (later : List UInt8) :
    namesFrom s fresh (bs ++ '\n'.toUInt8 :: later) =
      (if fresh && s == ⟨.code, 1⟩ then declaredNames bs else []) ++ namesFrom next true later := by
  induction bs generalizing s fresh with
  | nil =>
      obtain rfl := Option.some.inj hwalk
      simp [namesFrom, hstep]
  | cons b rest ih =>
      obtain ⟨hb, hrest⟩ := List.forall_mem_cons.mp hbs
      obtain ⟨mid, hmid, hwalk⟩ := Option.bind_eq_some_iff.mp hwalk
      have htake : (b :: rest ++ '\n'.toUInt8 :: later).takeWhile (· != '\n'.toUInt8) =
          b :: rest := by
        rw [List.takeWhile_append_of_pos (by simpa using hbs)]
        simp
      rw [List.cons_append, namesFrom, hmid, ← List.cons_append, htake]
      simp only
      rw [ih hwalk hrest, beq_false_of_ne hb]
      simp

def freshAfter (fresh : Bool) (bs : List UInt8) : Bool :=
  bs.foldl (fun _ b => b == '\n'.toUInt8) fresh

/-- Nothing inside of a block is declared outside of all. -/
theorem namesFrom_inside {mode mode' : Mode} {m n : Nat} {bs : List UInt8}
    (hwalk : State.walk ⟨mode, m + 1⟩ bs = some ⟨mode', n + 1⟩) (extra : Nat) (fresh : Bool)
    (later : List UInt8) :
    namesFrom ⟨mode, m + (extra + 1) + 1⟩ fresh (bs ++ later) =
      namesFrom ⟨mode', n + (extra + 1) + 1⟩ (freshAfter fresh bs) later := by
  induction bs generalizing mode m fresh with
  | nil =>
      obtain ⟨rfl, hdepth⟩ := State.mk.inj (Option.some.inj hwalk)
      rw [Nat.succ.inj hdepth]
      rfl
  | cons b rest ih =>
      obtain ⟨⟨mid, depth⟩, hstep, hwalk⟩ := Option.bind_eq_some_iff.mp hwalk
      obtain ⟨k, rfl⟩ : ∃ k, depth = k + 1 :=
        Nat.exists_eq_succ_of_ne_zero
          (Nat.ne_of_gt (State.depth_pos_of_step hstep (Nat.succ_pos m)))
      rw [List.cons_append, namesFrom, State.step_frame (extra + 1) hstep]
      have hdeep : (fresh && (⟨mode, m + (extra + 1) + 1⟩ : State) == ⟨.code, 1⟩) = false := by
        simp
      rw [hdeep]
      exact ih hwalk _

/-- Whether a text that starts and ends where lines do, below `m` and `n` open
blocks, declares some names outside of all blocks. -/
def Binds (m n : Nat) (text : String) (names : List String) : Prop :=
  ∀ later, namesFrom ⟨.code, m + 1⟩ true (bytes text ++ later) =
    names ++ namesFrom ⟨.code, n + 1⟩ true later

section Binds

variable {m n k : Nat} {text : String} {names : List String}

theorem Binds.append {text' : String} {names' : List String} (h : Binds m n text names)
    (h' : Binds n k text' names') : Binds m k (text ++ text') (names ++ names') := by
  intro later
  rw [bytes_append, List.append_assoc, h, h', List.append_assoc]

theorem Binds.topLevelNames_eq (h : Binds 0 0 text names) : topLevelNames text = names := by
  have hnames := h []
  rwa [List.append_nil, namesFrom, List.append_nil] at hnames

theorem binds_empty (m : Nat) : Binds m m "" [] := fun _ => rfl

/-- A line with a newline behind it. -/
theorem binds_line (hpasses : Passes m n (text ++ "\n"))
    (hline : ∀ b ∈ bytes text, b ≠ '\n'.toUInt8) :
    Binds m n (text ++ "\n") (if m = 0 then declaredNames (bytes text) else []) := by
  have hnewline : bytes "\n" = ['\n'.toUInt8] := rfl
  intro later
  rw [Passes, bytes_append, State.walk_append] at hpasses
  obtain ⟨last, hwalk, hlast⟩ := Option.bind_eq_some_iff.mp hpasses
  obtain ⟨next, hstep, hnext⟩ := Option.bind_eq_some_iff.mp hlast
  obtain rfl := Option.some.inj hnext
  rw [bytes_append, hnewline, List.append_assoc, List.singleton_append,
    namesFrom_line hwalk hline hstep]
  congr 1
  cases m <;> simp

/-- Code inside of a block declares nothing at the top level, however many lines
it has. -/
theorem binds_inside (hpasses : Passes 0 0 text) (hlines : WholeLines text) (m : Nat) :
    Binds (m + 1) (m + 1) text [] := by
  intro later
  have hinside := namesFrom_inside hpasses m true later
  have hfresh : freshAfter true (bytes text) = true := by
    rcases hlines with rfl | ⟨front, rfl⟩
    · rfl
    · rw [bytes_append, freshAfter, List.foldl_append]
      rfl
  rw [hfresh, Nat.zero_add] at hinside
  exact hinside

end Binds

/-! ## Texts without newlines -/

/-- Whether a text has no newline. -/
def OneLine (s : String) : Prop := ∀ b ∈ bytes s, b ≠ '\n'.toUInt8

theorem OneLine.append {s t : String} (hs : OneLine s) (ht : OneLine t) : OneLine (s ++ t) := by
  rw [OneLine, bytes_append]
  exact List.forall_mem_append.mpr ⟨hs, ht⟩

theorem oneLine_ofList {cs : List Char} (h : ∀ c ∈ cs, c ≠ '\n') : OneLine (String.ofList cs) := by
  rintro b hb rfl
  rw [bytes_ofList] at hb
  obtain ⟨c, hc, hbc⟩ := List.mem_flatMap.mp hb
  exact h c hc (eq_of_mem_encode (by decide) hbc)

theorem oneLine_intercalate {sep : String} {texts : List String} (hsep : OneLine sep)
    (h : ∀ s ∈ texts, OneLine s) : OneLine (String.intercalate sep texts) := by
  induction texts with
  | nil => exact fun _ hb => absurd hb List.not_mem_nil
  | cons s rest ih =>
      obtain ⟨hs, hrest⟩ := List.forall_mem_cons.mp h
      cases rest with
      | nil => simpa using hs
      | cons t rest =>
          rw [String.intercalate_cons_cons]
          exact (hs.append hsep).append (ih hrest)

theorem hexDigit_ne_newline (n : Nat) : hexDigit n ≠ '\n' := by
  have hdigits : ∀ k < 16, (Nat.toDigits 16 k).headD '0' ≠ '\n' := by decide
  exact hdigits (n % 16) (Nat.mod_lt n (by decide))

/-- No character of an escape is a newline: a newline itself is written with a
letter behind a backslash. -/
theorem ne_newline_of_mem_escapeChar {c d : Char} (h : d ∈ escapeChar c) : d ≠ '\n' := by
  have hhigh := (hexDigit_ne_newline (c.toNat / 16)).symm
  have hlow := (hexDigit_ne_newline (c.toNat % 16)).symm
  rintro rfl
  revert h
  fun_cases escapeChar c with
  | case8 => simp [hhigh, hlow]
  | case9 _ _ hnewline => exact fun h => hnewline (List.mem_singleton.mp h).symm
  | _ => decide

/-- A quoted text stays on its line, whatever it says. -/
theorem oneLine_quoted (s : String) : OneLine (quoted s) := by
  refine oneLine_ofList fun c hc => ?_
  rw [List.cons_append, List.mem_cons, List.mem_append, List.mem_singleton] at hc
  rcases hc with rfl | hc | rfl
  · decide
  · obtain ⟨d, -, hd⟩ := List.mem_flatMap.mp hc
    exact ne_newline_of_mem_escapeChar hd
  · decide

theorem oneLine_strings (values : List String) : OneLine (strings values) := by
  have hopen : OneLine "[" := List.ne_of_all_bne rfl
  have hclose : OneLine "]" := List.ne_of_all_bne rfl
  have hsep : OneLine ", " := List.ne_of_all_bne rfl
  refine (hopen.append (oneLine_intercalate hsep fun s hs => ?_)).append hclose
  obtain ⟨value, -, rfl⟩ := List.mem_map.mp hs
  exact oneLine_quoted value

/-! ## Pieces of code -/

def lineText (depth : Nat) (text : String) : String :=
  if text.isEmpty then "" else indentation depth ++ text

theorem lineAt_eq (depth : Nat) (text : String) :
    lineAt depth text = lineText depth text ++ "\n" := by
  unfold lineAt lineText
  split <;> rfl

theorem lineText_zero (text : String) : lineText 0 text = text := by
  unfold lineText
  split
  next h => exact (String.isEmpty_iff.mp h).symm
  next => exact String.empty_append

theorem oneLine_lineText {text : String} (h : OneLine text) (depth : Nat) :
    OneLine (lineText depth text) := by
  have hindentation : OneLine (indentation depth) := by
    refine oneLine_ofList fun c hc => ?_
    rw [List.eq_of_mem_replicate hc]
    decide
  unfold lineText
  split
  · exact fun _ hb => absurd hb List.not_mem_nil
  · exact hindentation.append h

structure Declares (depth : Nat) (ps : List Piece) (names : List String) : Prop where
  binds : Binds 0 0 (String.join (renderFrom depth ps)) names
  level : Level ps

section Declares

variable {depth : Nat} {ps qs : List Piece} {names names' : List String} {text : String}

theorem Declares.append (hp : Declares depth ps names) (hq : Declares depth qs names') :
    Declares depth (ps ++ qs) (names ++ names') := by
  refine ⟨?_, hp.level.append hq.level⟩
  rw [renderFrom_append, hp.level, String.join_append]
  exact hp.binds.append hq.binds

theorem declares_nil (depth : Nat) : Declares depth [] [] := ⟨binds_empty 0, fun _ => rfl⟩

theorem declares_flatMap {α : Type} {as : List α} {f : α → List Piece} {names : α → List String}
    (h : ∀ a ∈ as, Declares depth (f a) (names a)) :
    Declares depth (as.flatMap f) (as.flatMap names) := by
  induction as with
  | nil => exact declares_nil depth
  | cons a rest ih =>
      obtain ⟨ha, hrest⟩ := List.forall_mem_cons.mp h
      rw [List.flatMap_cons, List.flatMap_cons]
      exact ha.append (ih hrest)

theorem declares_blank (depth : Nat) : Declares depth [.blank] [] := ⟨fun _ => rfl, fun _ => rfl⟩

/-- A line declares what it starts with as it stands in the text, moved in. -/
theorem declares_line (hcovers : Covers 0 0 [.line text]) (hline : OneLine text) (depth : Nat) :
    Declares depth [.line text] (declaredNames (bytes (lineText depth text))) := by
  have hpasses := hcovers depth
  have hrender : String.join (renderFrom depth [.line text]) = lineText depth text ++ "\n" := by
    simp only [renderFrom, Piece.render, lineAt_eq, String.join_cons, String.join_nil,
      String.append_empty]
  rw [hrender] at hpasses
  refine ⟨?_, fun _ => rfl⟩
  rw [hrender]
  exact binds_line hpasses (oneLine_lineText hline depth)

theorem join_renderFrom_block (depth : Nat) (before behind : String) (ps : List Piece) :
    String.join (renderFrom depth (block before ps behind)) =
      lineAt depth before ++ String.join (renderFrom (depth + 1) ps)
        ++ lineAt (ps.foldl Piece.depthAfter (depth + 1) - 1) behind := by
  rw [block, List.cons_append, renderFrom, renderFrom_append, String.join_cons,
    String.join_append, String.append_assoc]
  simp [renderFrom, Piece.render, Piece.depthAfter]

/-- A block declares what its first line does. -/
theorem declares_frames (h : Frames ps text) (hlevel : Level ps) (hline : OneLine text)
    (depth : Nat) : Declares depth ps (declaredNames (bytes (lineText depth text))) := by
  refine ⟨?_, hlevel⟩
  cases h with
  | @block ps _ behind opens inside closes single =>
      have hopens := passes_lineAt opens depth
      have hcloses := passes_lineAt closes (ps.foldl Piece.depthAfter (depth + 1) - 1)
      rw [lineAt_eq] at hopens hcloses
      have hbefore := binds_line hopens (oneLine_lineText hline depth)
      have hinside := binds_inside (inside (depth + 1)) (wholeLines_renderFrom (depth + 1) ps) 0
      have hbehind := binds_line hcloses (oneLine_lineText (List.ne_of_all_bne single) _)
      rw [join_renderFrom_block, lineAt_eq, lineAt_eq]
      simpa using (hbefore.append hinside).append hbehind

end Declares

def Introduces (start : String) : Prop :=
  ∀ line, declaredNames (bytes start ++ line) = [ofBytes (line.takeWhile Scan.isWordPart)]

theorem Introduces.declaredNames_eq {start name : String} (h : Introduces start)
    (hname : IsWord name) {rest : List UInt8} (hrest : rest.takeWhile Scan.isWordPart = []) :
    declaredNames (bytes start ++ (bytes name ++ rest)) = [name] := by
  rw [h, List.takeWhile_append_of_pos hname, hrest, List.append_nil, ofBytes_bytes]

/-- A block that declares a word: the word stands behind one of the starts of a
declaration, and what follows is no part of it. -/
theorem declares_frames_word {ps : List Piece} {start name behind : String}
    (h : Frames ps (start ++ name ++ behind)) (hlevel : Level ps) (hstart : Introduces start)
    (hname : IsWord name) (hbehind : (bytes behind).takeWhile Scan.isWordPart = [])
    (hlines : (bytes start ++ bytes behind).all (· != '\n'.toUInt8) = true) :
    Declares 0 ps [name] := by
  rw [List.all_append, Bool.and_eq_true] at hlines
  have hline : OneLine (start ++ name ++ behind) :=
    OneLine.append (OneLine.append (List.ne_of_all_bne hlines.1)
      (Server.ne_newline_of_isWord hname)) (List.ne_of_all_bne hlines.2)
  have hnames := declares_frames h hlevel hline 0
  rwa [lineText_zero, bytes_append, bytes_append, List.append_assoc,
    hstart.declaredNames_eq hname hbehind] at hnames

end Code

namespace Server

open Code

/-! ## The code of a module -/

theorem isWord_append {s t : String} (hs : IsWord s) (ht : IsWord t) : IsWord (s ++ t) := by
  rw [IsWord, bytes_append]
  exact List.forall_mem_append.mpr ⟨hs, ht⟩

theorem isWord_of_all {s : String} (h : (bytes s).all Scan.isWordPart = true) : IsWord s :=
  List.all_eq_true.mp h

theorem declares_columns {s : Schema} (h : IsWord s.name) :
    Declares 0 [.line ("export const " ++ columnsName s.name ++ " = Object.freeze("
      ++ strings s.columns ++ ");")] [columnsName s.name] := by
  have hname : IsWord (columnsName s.name) := isWord_append h (isWord_of_all rfl)
  have hcovers : Covers 0 0 [.line ("export const " ++ columnsName s.name ++ " = Object.freeze("
      ++ strings s.columns ++ ");")] :=
    covers_line (Passes.around (Passes.around rfl (hname.passes 0) rfl) (passes_strings _) rfl)
  have hline : OneLine ("export const " ++ columnsName s.name ++ " = Object.freeze("
      ++ strings s.columns ++ ");") :=
    OneLine.append (OneLine.append (OneLine.append (OneLine.append (List.ne_of_all_bne rfl)
      (ne_newline_of_isWord hname)) (List.ne_of_all_bne rfl)) (oneLine_strings _))
      (List.ne_of_all_bne rfl)
  have hstart : Introduces "export const " := fun _ => rfl
  have hnames := declares_line hcovers hline 0
  simp only [lineText_zero, bytes_append, List.append_assoc] at hnames
  rwa [hstart.declaredNames_eq hname rfl] at hnames

theorem declares_title {name : String} (h : IsWord name) :
    Declares 0 [.line ("// ── " ++ name ++ " ──")] [] := by
  have hline : OneLine ("// ── " ++ name ++ " ──") :=
    OneLine.append (OneLine.append (List.ne_of_all_bne rfl) (ne_newline_of_isWord h))
      (List.ne_of_all_bne rfl)
  have hnames := declares_line (covers_title h) hline 0
  simp only [lineText_zero, bytes_append, List.append_assoc] at hnames
  exact hnames

def sectionNames (schema : String) : List String :=
  [validatorName schema, columnsName schema, statementsName schema, listQueryName schema]

/-- The section of a schema declares its validator, its columns, its statements
and its list query, and nothing else. -/
theorem declares_schemaSection (options : EmitOptions) {s : Schema} (h : IsWord s.name)
    (checks : List Check) :
    Declares 0 (schemaSection options s checks) (sectionNames s.name) := by
  have hblank := declares_blank 0
  have hvalidator : Declares 0 (validator s.name checks) [validatorName s.name] :=
    declares_frames_word (frames_validator (h.passes 0) checks) (level_validator s.name checks)
      (fun _ => rfl) (isWord_append (isWord_of_all rfl) h) rfl rfl
  have hstatements : Declares 0 (statementsObject s.name (.ofSchema options.dialect s))
      [statementsName s.name] :=
    declares_frames_word (frames_statementsObject (h.passes 0) _) (fun _ => rfl) (fun _ => rfl)
      (isWord_append h (isWord_of_all rfl)) rfl rfl
  have hbuilder : Declares 0 (listBuilder options.dialect s.name) [listQueryName s.name] :=
    declares_frames_word (frames_listBuilder options.dialect (h.passes 0)) (fun _ => rfl)
      (fun _ => rfl) (isWord_append (isWord_append (isWord_of_all rfl) h) (isWord_of_all rfl))
      rfl rfl
  have hqueries := ((((declares_columns h).append hblank).append hstatements).append hblank).append
    hbuilder
  exact ((((hblank.append (declares_title h)).append hblank).append hvalidator).append
    hblank).append hqueries

theorem declares_lineNumber (n : Nat) : Declares 0 [.line s!"// line {n}"] [] := by
  have htext : s!"// line {n}" = "// line " ++ toString n := rfl
  have hline : OneLine s!"// line {n}" :=
    OneLine.append (List.ne_of_all_bne rfl) (ne_newline_of_toString n)
  have hnames := declares_line (covers_lineNumber n) hline 0
  rw [lineText_zero, htext, bytes_append] at hnames
  exact hnames

/-- An action declares its own name and none in its body. -/
theorem declares_actionCode {a : Action} (h : a.WellNamed) (hbody : Passes 0 0 (ended a.body)) :
    Declares 0 (actionCode a) [a.name] := by
  have hline : OneLine ("async function " ++ a.name ++ "(" ++ String.intercalate ", " a.params
      ++ r") {") := by
    refine OneLine.append (OneLine.append (OneLine.append (OneLine.append (List.ne_of_all_bne rfl)
      (ne_newline_of_isWord h.1)) (List.ne_of_all_bne rfl)) ?_) (List.ne_of_all_bne rfl)
    exact oneLine_intercalate (List.ne_of_all_bne rfl) fun p hp => ne_newline_of_isWord (h.2 p hp)
  have hheader := binds_line ((passes_actionHeader h).append (passes_newline 1)) hline
  have hinside := binds_inside hbody (wholeLines_piece (.verbatim a.body) 0) 0
  have hclosing : Binds 1 0 (r"}" ++ "\n") [] := binds_line rfl (List.ne_of_all_bne rfl)
  have hstart : Introduces "async function " := fun _ => rfl
  simp only [if_true, bytes_append, List.append_assoc] at hheader
  rw [hstart.declaredNames_eq h.1 rfl] at hheader
  have hfunction : Declares 0 [.line ("async function " ++ a.name ++ "("
      ++ String.intercalate ", " a.params ++ r") {"), .verbatim a.body, .line r"}"]
      [a.name] := by
    refine ⟨?_, fun _ => rfl⟩
    have hbinds := (hheader.append hinside).append hclosing
    simpa [renderFrom, Piece.render, lineAt_zero, Piece.depthAfter, String.append_assoc]
      using hbinds
  exact (declares_lineNumber a.line).append hfunction

theorem declares_actionSection {actions : List Action}
    (h : ∀ a ∈ actions, a.WellNamed ∧ Passes 0 0 (ended a.body)) :
    Declares 0 (actionSection actions) (actions.map Action.name) := by
  unfold actionSection
  split
  next hempty =>
    rw [List.isEmpty_iff.mp hempty]
    exact declares_nil 0
  next =>
    have htitle : Declares 0 [.line ("//" ++ " ── Actions ──")] [] :=
      declares_line (covers_comment (List.ne_of_all_bne rfl) 0) (List.ne_of_all_bne rfl) 0
    rw [List.map_eq_flatMap]
    refine ((declares_blank 0).append htitle).append (declares_flatMap fun a ha => ?_)
    exact (declares_blank 0).append (declares_actionCode (h a ha).1 (h a ha).2)

/-- The list of migrations declares one name, whether it is empty or not. -/
theorem declares_migrationList (migrations : List (String × List String)) :
    Declares 0 (migrationList migrations) ["migrations"] := by
  unfold migrationList
  split
  · have hpasses : Passes 0 0 "export const migrations = Object.freeze([]);" := rfl
    exact declares_line (covers_line hpasses) (List.ne_of_all_bne rfl) 0
  · -- The list opens no block that braces show, so its objects are outside of all.
    have hobjects : Declares 1 (migrations.flatMap fun m => migrationObject m.1 m.2)
        (migrations.flatMap fun _ => []) :=
      declares_flatMap fun m _ => declares_frames (frames_migrationObject m.1 m.2)
        (level_migrationObject m.1 m.2) (List.ne_of_all_bne rfl) 1
    have hopening : Binds 0 0 ("export const migrations = Object.freeze([" ++ "\n")
        ["migrations"] := binds_line rfl (List.ne_of_all_bne rfl)
    have hclosing : Binds 0 0 ("]);" ++ "\n") [] := binds_line rfl (List.ne_of_all_bne rfl)
    have hnone : (migrations.flatMap fun _ => ([] : List String)) = [] := by simp
    rw [hnone] at hobjects
    refine ⟨?_, level_block hobjects.level⟩
    have hbinds := (hopening.append hobjects.binds).append hclosing
    rw [← lineAt_zero, ← lineAt_zero] at hbinds
    rw [join_renderFrom_block, hobjects.level]
    exact hbinds

theorem declares_importLine (options : EmitOptions) :
    Declares 0 [importLine options] runtimeImports := by
  have hline : OneLine (r"import { " ++ String.intercalate ", " runtimeImports ++ r" } from "
      ++ string options.runtimeModule ++ ";") :=
    OneLine.append (OneLine.append (List.ne_of_all_bne rfl) (oneLine_quoted _))
      (List.ne_of_all_bne rfl)
  have hnames := declares_line (covers_importLine options) hline 0
  rw [lineText_zero, bytes_append, bytes_append, List.append_assoc] at hnames
  exact hnames

def moduleNames (t : Tree) : List String :=
  runtimeImports ++ t.schemas.flatMap (fun s => sectionNames s.name) ++ t.actions.map Action.name
    ++ ["migrations", "prepareTables", "createHandlers"]

/-- All names that a module declares, found by reading its text. -/
theorem declares_pieces {options : EmitOptions} {t : Tree} {ps : List Piece}
    (h : pieces options t = .ok ps) (hread : t.WellRead) : Declares 0 ps (moduleNames t) := by
  obtain ⟨checks, migrations, rfl⟩ := exists_pieces_eq h
  have hblank := declares_blank 0
  have hheader : Declares 0 [.line ("//" ++ " Generated by blocksmith. Do not edit.")] [] :=
    declares_line (covers_comment (List.ne_of_all_bne rfl) 0) (List.ne_of_all_bne rfl) 0
  have hschemas : Declares 0 (t.schemas.flatMap fun s => schemaSection options s (checks s))
      (t.schemas.flatMap fun s => sectionNames s.name) :=
    declares_flatMap fun s hs => declares_schemaSection options (hread.named.schemas s hs).1 _
  have hactions : Declares 0 (actionSection t.actions) (t.actions.map Action.name) :=
    declares_actionSection fun a ha => ⟨hread.named.actions a ha, (hread.enclosed a ha).passes⟩
  have htables : Declares 0 (prepareTables t.schemas) ["prepareTables"] :=
    declares_frames (frames_prepareTables fun s hs => (hread.named.schemas s hs).1.passes 0)
      (level_prepareTables t.schemas) (List.ne_of_all_bne rfl) 0
  have hhandlers : Declares 0 (createHandlers t.routes) ["createHandlers"] :=
    declares_frames (frames_createHandlers hread.named.routes) (level_createHandlers t.routes)
      (List.ne_of_all_bne rfl) 0
  have hnames : moduleNames t = [] ++ runtimeImports
      ++ (t.schemas.flatMap fun s => sectionNames s.name) ++ t.actions.map Action.name ++ []
      ++ ["migrations"] ++ [] ++ ["prepareTables"] ++ [] ++ ["createHandlers"] := by
    simp [moduleNames]
  rw [hnames]
  exact ((((((((hheader.append (declares_importLine options)).append hschemas).append
    hactions).append hblank).append (declares_migrationList migrations)).append hblank).append
      htables).append hblank).append hhandlers

end Server

end BlockLang
