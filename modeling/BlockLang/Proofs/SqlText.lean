import BlockLang.Proofs.Lists
import BlockLang.Sql.Statements
import Mathlib.Data.List.Basic

/-! # Reading SQL

A statement is cut into words, names between quotes and marks. Between its quotes a name may hold
any characters, and a doubled quote there stands for one quote, so a quoted identifier is read back
as the name that it was made from. The columns of a table are read from the statement that creates
it.
-/

namespace BlockLang.Sql

/-! ## Tokens -/

inductive Token where
  /-- A name between quotes. -/
  | identifier (name : String)
  | word (text : String)
  | mark (mark : Char)
  /-- A name that lacks its closing quote. -/
  | unclosed
  deriving DecidableEq, Repr

inductive Reading where
  | between
  | word (read : List Char)
  | quoted (read : List Char)
  /-- A quote inside of a name, which ends the name unless another quote follows. -/
  | quote (read : List Char)
  deriving DecidableEq, Repr

def isWordPart (c : Char) : Bool := c.isAlphanum || c == '_' || c == '$'

namespace Reading

def ended : Reading → List Token
  | between => []
  | word read => [.word (String.ofList read)]
  | quoted _ => [.unclosed]
  | quote read => [.identifier (String.ofList read)]

def next? : Reading → Char → Option Reading
  | between, _ => none
  | word read, c => if isWordPart c then some (word (read ++ [c])) else none
  | quoted read, c => some (if c = '"' then quote read else quoted (read ++ [c]))
  | quote read, c => if c = '"' then some (quoted (read ++ [c])) else none

/-- The reading behind a character that continues no token, and the mark that it
is. -/
def start (c : Char) : List Token × Reading :=
  if c = '"' then ([], quoted [])
  else if isWordPart c then ([], word [c])
  else if c.isWhitespace then ([], between)
  else ([.mark c], between)

end Reading

def tokensFrom (r : Reading) : List Char → List Token
  | [] => r.ended
  | c :: rest =>
    match r.next? c with
    | some next => tokensFrom next rest
    | none => r.ended ++ (Reading.start c).1 ++ tokensFrom (Reading.start c).2 rest

def tokens (text : String) : List Token := tokensFrom .between text.toList

/-! ## Tokens of texts -/

/-- Whether a text leads from one reading to another and ends some tokens on the
way. -/
def Leads (r : Reading) (text : String) (ts : List Token) (r' : Reading) : Prop :=
  ∀ rest, tokensFrom r (text.toList ++ rest) = ts ++ tokensFrom r' rest

theorem Leads.append {r r' r'' : Reading} {text text' : String} {ts ts' : List Token}
    (h : Leads r text ts r') (h' : Leads r' text' ts' r'') :
    Leads r (text ++ text') (ts ++ ts') r'' := by
  intro rest
  rw [String.toList_append, List.append_assoc, h, h', List.append_assoc]

theorem Leads.tokens_eq {text : String} {ts : List Token} {r : Reading}
    (h : Leads .between text ts r) : tokens text = ts ++ r.ended := by
  rw [tokens, ← List.append_nil text.toList, h]
  rfl

/-- Doubled quotes are read as quotes of the name. -/
theorem tokensFrom_doubleQuotes (read cs rest : List Char) :
    tokensFrom (.quoted read) (doubleQuotes cs ++ rest) =
      tokensFrom (.quoted (read ++ cs)) rest := by
  induction cs generalizing read with
  | nil => rw [List.append_nil]; rfl
  | cons c cs ih =>
      have hread : read ++ c :: cs = read ++ [c] ++ cs := by simp
      rw [hread, ← ih]
      by_cases hc : c = '"'
      · subst hc
        rfl
      · have hcons : doubleQuotes (c :: cs) = c :: doubleQuotes cs := by simp [doubleQuotes, hc]
        rw [hcons, List.cons_append, tokensFrom, Reading.next?, if_neg hc]

/-- An identifier is one token, which ends where no quote follows. -/
theorem leads_identifier (name : String) :
    Leads .between (identifier name) [] (.quote name.toList) := by
  intro rest
  have htext : (identifier name).toList ++ rest =
      '"' :: (doubleQuotes name.toList ++ '"' :: rest) := by
    simp [identifier]
  have hopen : ∀ later, tokensFrom .between ('"' :: later) = tokensFrom (.quoted []) later :=
    fun _ => rfl
  rw [htext, hopen, tokensFrom_doubleQuotes]
  rfl

/-! ## Definitions of columns -/

def definitions (ts : List Token) : List (List Token) :=
  (((ts.dropWhile (· ≠ .mark '(')).drop 1).takeWhile (· ≠ .mark ')')).splitOn (.mark ',')

def requiredColumn? : List Token → Option String
  | .identifier name :: rest =>
    if [.word "NOT", .word "NULL"] <:+ rest then some name else none
  | _ => none

/-- The columns that a statement which creates a table does not let be null. -/
def requiredColumns (text : String) : List String :=
  (definitions (tokens text)).filterMap requiredColumn?

def keyTokens : Dialect → List Token
  | .sqlite => [.word "id", .word "INTEGER", .word "PRIMARY", .word "KEY", .word "AUTOINCREMENT"]
  | .postgres => [.word "id", .word "SERIAL", .word "PRIMARY", .word "KEY"]

def typeTokens (d : Dialect) (k : Kind) : List Token := tokens (d.columnType k)

def columnTokens (d : Dialect) (f : Field) : List Token :=
  .identifier f.name :: typeTokens d f.kind
    ++ if f.optional then [] else [.word "NOT", .word "NULL"]

/-- Whether a definition has some tokens, both before another one and at the end
of the list. -/
def Defines (text : String) (ts : List Token) : Prop :=
  Leads .between (text ++ ", ") (ts ++ [.mark ',']) .between ∧
    Leads .between (text ++ ")") (ts ++ [.mark ')']) .between

theorem defines_keyDefinition (d : Dialect) : Defines d.keyDefinition (keyTokens d) := by
  cases d with
  | sqlite => exact ⟨fun _ => rfl, fun _ => rfl⟩
  | postgres => exact ⟨fun _ => rfl, fun _ => rfl⟩

/-- Behind the name of a column its type is read up to the last word. -/
theorem exists_leads_columnType (read : List Char) (d : Dialect) (k : Kind) :
    ∃ front last, Leads (.quote read) (" " ++ d.columnType k)
        (.identifier (String.ofList read) :: front) (.word last) ∧
      typeTokens d k = front ++ [.word (String.ofList last)] := by
  cases d <;> cases k
  case postgres.number => exact ⟨[.word "DOUBLE"], "PRECISION".toList, fun _ => rfl, rfl⟩
  case postgres.boolean => exact ⟨[], "BOOLEAN".toList, fun _ => rfl, rfl⟩
  case postgres.passthrough => exact ⟨[], "JSONB".toList, fun _ => rfl, rfl⟩
  case sqlite.number => exact ⟨[], "REAL".toList, fun _ => rfl, rfl⟩
  case sqlite.integer | sqlite.boolean | postgres.integer =>
    exact ⟨[], "INTEGER".toList, fun _ => rfl, rfl⟩
  all_goals exact ⟨[], "TEXT".toList, fun _ => rfl, rfl⟩

/-- The definition of a column is its name, the words of its type and, unless
its field is optional, two more words. -/
theorem defines_columnDefinition (d : Dialect) (f : Field) :
    Defines (Statements.columnDefinition d f) (columnTokens d f) := by
  obtain ⟨front, last, htype, htokens⟩ := exists_leads_columnType f.name.toList d f.kind
  rw [String.ofList_toList] at htype
  have hcolumn := (leads_identifier f.name).append htype
  -- The last word of the type, or of what follows it, ends at the comma or the parenthesis.
  have hclose : ∀ close mark, (close = ", " ∧ mark = ',') ∨ (close = ")" ∧ mark = ')') →
      Leads (.word last) ((if f.optional then "" else " NOT NULL") ++ close)
        (.word (String.ofList last) :: (if f.optional then [] else [.word "NOT", .word "NULL"])
          ++ [.mark mark]) .between := by
    rintro close mark (⟨rfl, rfl⟩ | ⟨rfl, rfl⟩) <;> cases f.optional <;> exact fun _ => rfl
  constructor
  · have hleads := hcolumn.append (hclose ", " ',' (.inl ⟨rfl, rfl⟩))
    simpa [Statements.columnDefinition, columnTokens, htokens, String.append_assoc] using hleads
  · have hleads := hcolumn.append (hclose ")" ')' (.inr ⟨rfl, rfl⟩))
    simpa [Statements.columnDefinition, columnTokens, htokens, String.append_assoc] using hleads

/-- The definitions of a table with their tokens: the key, then the columns in
their order. -/
def tableDefinitions (d : Dialect) (s : Schema) : List (String × List Token) :=
  (d.keyDefinition, keyTokens d)
    :: s.dataFields.map fun f => (Statements.columnDefinition d f, columnTokens d f)

theorem defines_of_mem {d : Dialect} {s : Schema} {p : String × List Token}
    (h : p ∈ tableDefinitions d s) : Defines p.1 p.2 := by
  rcases List.mem_cons.mp h with rfl | h
  · exact defines_keyDefinition d
  · obtain ⟨f, -, rfl⟩ := List.mem_map.mp h
    exact defines_columnDefinition d f

/-- Definitions with commas between them are read one by one, with the
parenthesis that ends their list. -/
theorem leads_definitions (first : String × List Token) (more : List (String × List Token))
    (h : ∀ p ∈ first :: more, Defines p.1 p.2) :
    Leads .between (String.intercalate ", " ((first :: more).map Prod.fst) ++ ")")
      ([.mark ','].intercalate ((first :: more).map Prod.snd) ++ [.mark ')']) .between := by
  induction more generalizing first with
  | nil => simpa using (h first List.mem_cons_self).2
  | cons second more ih =>
      obtain ⟨hfirst, hmore⟩ := List.forall_mem_cons.mp h
      have hleads := hfirst.1.append (ih second hmore)
      simpa only [List.map_cons, String.intercalate_cons_cons, String.append_assoc,
        List.intercalate_cons_cons, List.append_assoc] using hleads

/-- The tokens of the statement that creates a table. -/
theorem tokens_creation (d : Dialect) (s : Schema) :
    tokens (Statements.creation d s) =
      [.word "CREATE", .word "TABLE", .word "IF", .word "NOT", .word "EXISTS",
        .identifier s.name, .mark '('] ++
      ([.mark ','].intercalate ((tableDefinitions d s).map Prod.snd) ++ [.mark ')']) := by
  have hhead : Leads .between "CREATE TABLE IF NOT EXISTS "
      [.word "CREATE", .word "TABLE", .word "IF", .word "NOT", .word "EXISTS"] .between :=
    fun _ => rfl
  have hopen : Leads (.quote s.name.toList) " ("
      [.identifier (String.ofList s.name.toList), .mark '('] .between := fun _ => rfl
  rw [String.ofList_toList] at hopen
  have hdefinitions : Leads .between
      (String.intercalate ", " ((tableDefinitions d s).map Prod.fst) ++ ")")
      ([.mark ','].intercalate ((tableDefinitions d s).map Prod.snd) ++ [.mark ')']) .between :=
    leads_definitions _ _ fun _ => defines_of_mem
  have hall := ((hhead.append (leads_identifier s.name)).append hopen).append hdefinitions
  have htexts : (tableDefinitions d s).map Prod.fst =
      d.keyDefinition :: s.dataFields.map (Statements.columnDefinition d) := by
    rw [tableDefinitions, List.map_cons, List.map_map]
    rfl
  have hcreation : Statements.creation d s = "CREATE TABLE IF NOT EXISTS " ++ identifier s.name
      ++ " (" ++ (String.intercalate ", " ((tableDefinitions d s).map Prod.fst) ++ ")") := by
    rw [htexts]
    exact String.append_assoc ..
  rw [hcreation, hall.tokens_eq, Reading.ended, List.append_nil]
  rfl

/-- No definition has a comma or a parenthesis of its own: those of names are
inside of quotes. -/
theorem not_mem_of_mem {d : Dialect} {s : Schema} {ts : List Token}
    (h : ts ∈ (tableDefinitions d s).map Prod.snd) : .mark ',' ∉ ts ∧ .mark ')' ∉ ts := by
  have htype : ∀ k, .mark ',' ∉ typeTokens d k ∧ .mark ')' ∉ typeTokens d k := by
    intro k
    cases d <;> cases k <;> decide
  simp only [tableDefinitions, List.map_cons, List.map_map, List.mem_cons, List.mem_map] at h
  rcases h with rfl | ⟨f, -, rfl⟩
  · cases d <;> decide
  · have hkind := htype f.kind
    simp only [Function.comp_apply, columnTokens, List.cons_append, List.mem_cons,
      List.mem_append]
    split <;> simp [hkind]

/-- The definitions that are read from the statement are those that it was made
of, although names may hold commas and parentheses. -/
theorem definitions_creation (d : Dialect) (s : Schema) :
    definitions (tokens (Statements.creation d s)) = (tableDefinitions d s).map Prod.snd := by
  have hclose : .mark ')' ∉ [Token.mark ','].intercalate ((tableDefinitions d s).map Prod.snd) :=
    List.not_mem_intercalate (by decide) fun _ hts => (not_mem_of_mem hts).2
  have hopen : ∀ rest, (([.word "CREATE", .word "TABLE", .word "IF", .word "NOT", .word "EXISTS",
      .identifier s.name, .mark '('] ++ rest).dropWhile (· ≠ Token.mark '(')).drop 1 = rest :=
    fun _ => rfl
  have hinside : ∀ {ts : List Token}, .mark ')' ∉ ts →
      (ts ++ [Token.mark ')']).takeWhile (· ≠ Token.mark ')') = ts := by
    intro ts hts
    rw [List.takeWhile_append_of_pos (by grind)]
    simp
  rw [tokens_creation, definitions, hopen, hinside hclose]
  exact List.splitOn_intercalate _ (fun _ hts => (not_mem_of_mem hts).1)
    (by simp [tableDefinitions])

/-- The columns that a table does not let be null are those of the fields that
are not optional, as they are read from the statement. -/
theorem requiredColumns_creation (d : Dialect) (s : Schema) :
    requiredColumns (Statements.creation d s) =
      (s.dataFields.filter (!·.optional)).map Field.name := by
  have hkey : requiredColumn? (keyTokens d) = none := by cases d <;> rfl
  have hcolumn : ∀ f : Field,
      requiredColumn? (columnTokens d f) = if f.optional then none else some f.name := by
    intro f
    rw [columnTokens, List.cons_append, requiredColumn?]
    cases f.optional with
    | true => cases d <;> cases f.kind <;> rfl
    | false => simp
  rw [requiredColumns, definitions_creation, tableDefinitions, List.map_cons, List.map_map,
    List.filterMap_cons_none hkey, List.filterMap_map]
  induction s.dataFields with
  | nil => rfl
  | cons f rest ih =>
      rw [List.filterMap_cons, ih]
      simp only [Function.comp_apply, hcolumn]
      cases hoptional : f.optional <;> simp [hoptional]

end BlockLang.Sql
