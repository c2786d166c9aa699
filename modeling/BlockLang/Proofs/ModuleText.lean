import BlockLang.Proofs.Emitters
import BlockLang.Proofs.Loading

/-! # The text of a server module

Read as the contents of a block, the server module of a tree that was read ends where its text
does, and the body of every action ends where its function does. No text of the tree can change
either.
-/

namespace BlockLang

open Text Body

/-- What is whole ends at the brace behind it, and its text is found with the
blanks at its ends cut off. -/
theorem Block.extract_between (s₁ : String) {s : String} (s₂ : String) (h : Whole (bytes s)) :
    Block.extract (bytes (s₁ ++ r"{" ++ s ++ r"}" ++ s₂)) (bytes s₁).length =
      .ok ⟨trim s, (bytes (s₁ ++ r"{" ++ s)).length⟩ := by
  have hopen : bytes r"{" = ['{'.toUInt8] := rfl
  have hclose : bytes r"}" = ['}'.toUInt8] := rfl
  refine Block.extract_eq_ok_iff.mpr ⟨bytes s, bytes s₂, ?_, h, ?_⟩
  · rw [← List.drop_drop]
    simp [bytes_append, hopen, hclose]
  · simp only [bytes_append, hopen, List.length_append, List.length_singleton, ofBytes_bytes]

theorem Text.Passes.whole {s : String} (h : Passes 0 0 s) : Whole (bytes s) := ⟨.code, h, rfl⟩

namespace Tree.WellRead

variable {t : Tree}

/-- The module of a tree that was read leads from code to code. -/
theorem passes_server (h : t.WellRead) {options : EmitOptions} {m : String}
    (hm : t.server options = .ok m) : Passes 0 0 m := by
  obtain ⟨ps, hps, hm⟩ := Except.bind_eq_ok_iff.mp hm
  obtain rfl := Except.ok.inj hm
  exact Server.covers_pieces hps h.named (fun a ha => (h.enclosed a ha).passes) 0

end Tree.WellRead

namespace Tree

/-- The server module of a tree that was read or loaded leaves no quote, comment
or brace open, and closes none that it did not open, whatever the texts of the
tree are. -/
theorem server_closed {t : Tree}
    (ht : (∃ source, ofSource source = .ok t) ∨
      ∃ (files : FileTree) (entry root : String), load files entry root = .ok t)
    {options : EmitOptions} {m : String} (hm : t.server options = .ok m) :
    Block.extract (bytes (r"{" ++ m ++ r"}")) 0 = .ok ⟨trim m, 1 + (bytes m).length⟩ := by
  have hread : t.WellRead := by
    rcases ht with ⟨source, hsource⟩ | ⟨files, entry, root, hload⟩
    · exact Parser.wellRead_of_ofSource hsource
    · exact Modules.wellRead_of_load hload
  have hextract := Block.extract_between "" "" (hread.passes_server hm).whole
  have hlength : (bytes (r"{" ++ m)).length = 1 + (bytes m).length := by
    rw [bytes_append, List.length_append]
    rfl
  rw [String.empty_append, String.append_empty, hlength] at hextract
  exact hextract

/-- Braces in a quote, in the comment that a body ends in and in the name of the
runtime. -/
theorem server_closed_hidden_braces :
    ∃ t m, ofSource "do f(x) \x7b return '\x7b' // \x7d\n\x7d" = .ok t ∧
      t.server ⟨.postgres, r#""}`"#⟩ = .ok m ∧
      Block.extract (bytes (r"{" ++ m ++ r"}")) 0 = .ok ⟨trim m, 1 + (bytes m).length⟩ := by
  have hsource : ofSource "do f(x) \x7b return '\x7b' // \x7d\n\x7d" =
      .ok { actions := [⟨"f", ["x"], r"return '{' // }", 1⟩] } := rfl
  exact ⟨_, _, hsource, rfl, server_closed (.inl ⟨_, hsource⟩) rfl⟩

end Tree

/-! ## Bodies of actions -/

namespace Server

open Code

/-- The text of an action up to the brace that opens its body. -/
def actionHead (a : Action) : String :=
  s!"// line {a.line}\n" ++ "async function " ++ a.name ++ "(" ++ String.intercalate ", " a.params
    ++ ") "

def actionInside (a : Action) : String := "\n" ++ ended a.body

theorem lineAt_zero (text : String) : lineAt 0 text = text ++ "\n" := by
  unfold lineAt
  split_ifs with h
  · rw [String.isEmpty_iff.mp h]
    rfl
  · rw [show indentation 0 = "" from rfl, String.empty_append]

/-- The text of an action is its head and its body between two braces. -/
theorem render_actionCode (a : Action) :
    render (actionCode a) = actionHead a ++ r"{" ++ actionInside a ++ r"}" ++ "\n" := by
  have hopening : r") {" = ") " ++ r"{" := rfl
  have hhead : actionHead a = "// line " ++ toString a.line ++ "\n" ++ "async function " ++ a.name
      ++ "(" ++ String.intercalate ", " a.params ++ ") " := rfl
  simp only [render, actionCode, renderFrom, Piece.render, Piece.depthAfter, lineAt_zero,
    String.join_cons, String.join_nil, hhead, actionInside, hopening, String.append_assoc]
  rfl

/-- The code of the actions stands where no block is open, so an action is laid
out in the module as it is alone. -/
theorem exists_pieces_actions {options : EmitOptions} {t : Tree} {ps : List Piece}
    (h : pieces options t = .ok ps) :
    ∃ front behind, Level front ∧ ps = front ++ actionSection t.actions ++ behind := by
  obtain ⟨sections, migrations, hsections, rfl⟩ := exists_sections h
  have hlevel : Level sections.flatten := by
    rw [← List.flatMap_id]
    refine level_flatMap fun code hcode => ?_
    obtain ⟨s, -, checks, rfl⟩ := hsections code hcode
    exact level_schemaSection options s checks
  have hhead : Level [.line header, importLine options] := fun _ => rfl
  refine ⟨[.line header, importLine options] ++ sections.flatten,
    [.blank] ++ migrationList migrations ++ [.blank] ++ prepareTables t.schemas
      ++ [.blank] ++ createHandlers t.routes, hhead.append hlevel, ?_⟩
  simp only [List.append_assoc]

def actionCodes (actions : List Action) : List Piece :=
  actions.flatMap fun a => .blank :: actionCode a

theorem level_actionCodes (actions : List Action) : Level (actionCodes actions) :=
  level_flatMap fun _ _ _ => rfl

theorem actionSection_eq (as₁ : List Action) (a : Action) (as₂ : List Action) :
    actionSection (as₁ ++ a :: as₂) =
      [.blank, .line "// ── Actions ──"] ++ actionCodes as₁ ++ [.blank] ++ actionCode a
        ++ actionCodes as₂ := by
  simp [actionSection, actionCodes]

/-- Where an action stands in the text of a module: behind the actions before
it. -/
theorem exists_server_eq {options : EmitOptions} {t : Tree} {m : String}
    (h : t.server options = .ok m) {as₁ as₂ : List Action} {a : Action}
    (ha : t.actions = as₁ ++ a :: as₂) :
    ∃ front behind, pieces options t = .ok (front ++ actionSection t.actions ++ behind) ∧
      m = render (front ++ [.blank, .line "// ── Actions ──"] ++ actionCodes as₁ ++ [.blank])
        ++ render (actionCode a) ++ render (actionCodes as₂ ++ behind) := by
  obtain ⟨ps, hps, hm⟩ := Except.bind_eq_ok_iff.mp h
  obtain rfl := Except.ok.inj hm
  obtain ⟨front, behind, hfront, rfl⟩ := exists_pieces_actions hps
  have hbefore :
      Level (front ++ [.blank, .line "// ── Actions ──"] ++ actionCodes as₁ ++ [.blank]) :=
    Level.append (Level.append (hfront.append fun _ => rfl) (level_actionCodes as₁)) fun _ => rfl
  refine ⟨front, behind, hps, ?_⟩
  -- No block is open before the action or behind it, so its text is that of its code alone.
  rw [← render_append hbefore, ← render_append (hbefore.append (level_actionCode a)), ha,
    actionSection_eq]
  simp only [List.append_assoc]

theorem whole_actionInside {a : Action} (h : a.Enclosed) : Whole (bytes (actionInside a)) := by
  have hnewline : Passes 0 0 "\n" := rfl
  exact (hnewline.append h.passes).whole

/-- The blanks that were put around a body are all that is cut off again, since
a body that was read has none at its ends. -/
theorem trim_actionInside {a : Action} (h : a.Enclosed) : trim (actionInside a) = a.body := by
  rw [actionInside, trim_newline_ended, h.trimmed]

/-- The body of every action of a tree that was read is what its generated
function has between its braces, both in the text of the action and at its place
in the module. -/
theorem action_body_kept {source : String} {t : Tree} (h : Tree.ofSource source = .ok t)
    {as₁ as₂ : List Action} {a : Action} (ha : t.actions = as₁ ++ a :: as₂) :
    render (actionCode a) = actionHead a ++ r"{" ++ actionInside a ++ r"}" ++ "\n" ∧
    Block.extract (bytes (render (actionCode a))) (bytes (actionHead a)).length =
      .ok ⟨a.body, (bytes (actionHead a ++ r"{" ++ actionInside a)).length⟩ ∧
    ∀ options m, t.server options = .ok m → ∃ front behind before after,
      pieces options t = .ok (front ++ actionSection t.actions ++ behind) ∧
      before = render (front ++ [.blank, .line "// ── Actions ──"] ++ actionCodes as₁ ++ [.blank]) ∧
      m = before ++ render (actionCode a) ++ after ∧
      Block.extract (bytes m) (bytes (before ++ actionHead a)).length =
        .ok ⟨a.body, (bytes (before ++ actionHead a ++ r"{" ++ actionInside a)).length⟩ := by
  have henclosed : a.Enclosed :=
    (Parser.wellRead_of_ofSource h).enclosed a (by rw [ha]; exact List.mem_append_cons_self)
  have hextract : ∀ before after, Block.extract
      (bytes (before ++ render (actionCode a) ++ after)) (bytes (before ++ actionHead a)).length =
        .ok ⟨a.body, (bytes (before ++ actionHead a ++ r"{" ++ actionInside a)).length⟩ := by
    intro before after
    have hbetween := Block.extract_between (before ++ actionHead a) ("\n" ++ after)
      (whole_actionInside henclosed)
    rw [trim_actionInside henclosed] at hbetween
    rw [← hbetween, render_actionCode]
    simp only [String.append_assoc]
  refine ⟨render_actionCode a, ?_, ?_⟩
  · simpa only [String.empty_append, String.append_empty] using hextract "" ""
  · intro options m hm
    obtain ⟨front, behind, hpieces, hm⟩ := exists_server_eq hm ha
    refine ⟨front, behind, _, _, hpieces, rfl, hm, ?_⟩
    rw [hm]
    exact hextract _ _

/-- The second of two actions, with a body that ends in a comment. -/
theorem action_body_kept_comment :
    ∃ t a m, Tree.ofSource "do f() \x7b\x7d\ndo g(x) \x7b return `\x7d` // \x7d\n\x7d" = .ok t ∧
      t.actions = [⟨"f", [], "", 1⟩] ++ [a] ∧ a.body = r"return `}` // }" ∧
      Block.extract (bytes (render (actionCode a))) 30 = .ok ⟨a.body, 48⟩ ∧
      t.server ⟨.sqlite, ""⟩ = .ok m ∧
      ∃ before after, m = before ++ render (actionCode a) ++ after ∧
        Block.extract (bytes m) (bytes (before ++ actionHead a)).length =
          .ok ⟨a.body, (bytes (before ++ actionHead a ++ r"{" ++ actionInside a)).length⟩ := by
  have hsource : Tree.ofSource "do f() \x7b\x7d\ndo g(x) \x7b return `\x7d` // \x7d\n\x7d" =
      .ok { actions := [⟨"f", [], "", 1⟩, ⟨"g", ["x"], r"return `}` // }", 2⟩] } := rfl
  have hactions : [⟨"f", [], "", 1⟩, ⟨"g", ["x"], r"return `}` // }", 2⟩] =
      [⟨"f", [], "", 1⟩] ++ (⟨"g", ["x"], r"return `}` // }", 2⟩ : Action) :: [] := rfl
  obtain ⟨-, hown, hmodule⟩ := action_body_kept hsource hactions
  obtain ⟨front, behind, before, after, -, -, hm, hextract⟩ := hmodule ⟨.sqlite, ""⟩ _ rfl
  exact ⟨_, _, _, hsource, rfl, rfl, hown, rfl, before, after, hm, hextract⟩

end Server

end BlockLang
