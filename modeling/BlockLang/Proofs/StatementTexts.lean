import BlockLang.Proofs.Numerals
import BlockLang.Proofs.SqlText
import Mathlib.Data.List.Forall2

/-! # What statements say

The texts of statements are read the way their engine reads them. A parameter is bound by its
number: one engine counts the question marks of a statement, the other has the numbers written
out. So a statement that is read says which parameter goes into which column, and the names in it
may hold quotes, commas and question marks of their own.
-/

namespace BlockLang.Sql

/-! ## Items -/

inductive Item where
  | name (text : String)
  | word (text : String)
  | mark (mark : Char)
  | parameter (number : Nat)
  | unclosed
  deriving DecidableEq, Repr

def Item.ofToken : Token → Item
  | .identifier text => .name text
  | .word text => .word text
  | .mark c => .mark c
  | .unclosed => .unclosed

/-- The number of the parameter that a token stands for, if it does, with
`count` parameters before it. -/
def parameter? (d : Dialect) (count : Nat) (t : Token) : Option Nat :=
  match d, t with
  | .sqlite, .mark c => if c = '?' then some (count + 1) else none
  | .postgres, .word text =>
    match text.toList with
    | '$' :: digits =>
      if digits.isEmpty || !digits.all Char.isDigit then none
      else some (Decimal.digitsValue digits)
    | _ => none
  | _, _ => none

def items (d : Dialect) (count : Nat) : List Token → List Item
  | [] => []
  | t :: rest =>
    match parameter? d count t with
    | some number => .parameter number :: items d (count + 1) rest
    | none => .ofToken t :: items d count rest

/-! ## Statements -/

inductive Statement where
  | insert (table : String) (columns : List String) (parameters : List Nat)
      (returned : Option String)
  | insertDefaults (table : String) (returned : Option String)
  | update (table : String) (assignments : List (String × Nat)) (key : String) (parameter : Nat)
  | delete (table key : String) (parameter : Nat)
  | select (table key : String) (parameter : Nat)
  /-- The columns with the words that follow their names. -/
  | create (table : String) (columns : List (String × List String))
  deriving DecidableEq, Repr

namespace Statement

def upTo? (stop : Item) : List Item → Option (List Item × List Item)
  | [] => none
  | item :: rest =>
    if item = stop then some ([], rest)
    else (upTo? stop rest).map fun parts => (item :: parts.1, parts.2)

def list? {α : Type} (element? : List Item → Option α) (items : List Item) : Option (List α) :=
  (items.splitOn (.mark ',')).mapM element?

def column? : List Item → Option String
  | [.name column] => some column
  | _ => none

def bound? : List Item → Option Nat
  | [.parameter number] => some number
  | _ => none

def assignment? : List Item → Option (String × Nat)
  | [.name column, .mark '=', .parameter number] => some (column, number)
  | _ => none

def word? : Item → Option String
  | .word text => some text
  | _ => none

def definition? : List Item → Option (String × List String)
  | .name column :: rest | .word column :: rest => (rest.mapM word?).map (column, ·)
  | _ => none

def comparison? : List Item → Option (String × Nat)
  | [.word column, .mark '=', .parameter number] => some (column, number)
  | _ => none

def returned? : List Item → Option (Option String)
  | [] => some none
  | [.word "RETURNING", .word column] => some (some column)
  | _ => none

def insertion? (table : String) : List Item → Option Statement
  | .word "DEFAULT" :: .word "VALUES" :: rest => (returned? rest).map (.insertDefaults table)
  | .mark '(' :: rest => do
    let named ← upTo? (.mark ')') rest
    let columns ← list? column? named.1
    match named.2 with
    | .word "VALUES" :: .mark '(' :: rest =>
      let values ← upTo? (.mark ')') rest
      return .insert table columns (← list? bound? values.1) (← returned? values.2)
    | _ => none
  | _ => none

def ofItems? : List Item → Option Statement
  | .word "INSERT" :: .word "INTO" :: .name table :: rest => insertion? table rest
  | .word "UPDATE" :: .name table :: .word "SET" :: rest => do
    let parts ← upTo? (.word "WHERE") rest
    let assignments ← list? assignment? parts.1
    let key ← comparison? parts.2
    return .update table assignments key.1 key.2
  | .word "DELETE" :: .word "FROM" :: .name table :: .word "WHERE" :: rest => do
    let key ← comparison? rest
    return .delete table key.1 key.2
  | .word "SELECT" :: .mark '*' :: .word "FROM" :: .name table :: .word "WHERE" :: rest => do
    let key ← comparison? rest
    return .select table key.1 key.2
  | .word "CREATE" :: .word "TABLE" :: .word "IF" :: .word "NOT" :: .word "EXISTS" ::
      .name table :: .mark '(' :: rest => do
    let parts ← upTo? (.mark ')') rest
    let columns ← list? definition? parts.1
    if parts.2.isEmpty then some (.create table columns) else none
  | _ => none

/-- The statement that an engine reads from a text. -/
def read? (d : Dialect) (text : String) : Option Statement := ofItems? (items d 0 (tokens text))

theorem upTo?_append {stop : Item} {front : List Item} (h : stop ∉ front) (rest : List Item) :
    upTo? stop (front ++ stop :: rest) = some (front, rest) := by
  induction front with
  | nil => simp [upTo?]
  | cons item front ih =>
      simp only [List.mem_cons, not_or] at h
      rw [List.cons_append, upTo?, if_neg (Ne.symm h.1), ih h.2]
      rfl

/-- A list is read if its elements are, and if they have no commas of their
own. -/
theorem list?_intercalate {α : Type} {element? : List Item → Option α} {iss : List (List Item)}
    {as : List α} (hne : iss ≠ []) (hcomma : ∀ is ∈ iss, .mark ',' ∉ is)
    (h : List.Forall₂ (fun is a => element? is = some a) iss as) :
    list? element? ([.mark ','].intercalate iss) = some as := by
  rw [list?, List.splitOn_intercalate _ hcomma hne]
  clear hne hcomma
  induction h with
  | nil => rfl
  | cons hfirst _ ih => simp [List.mapM_cons, hfirst, ih]

theorem list?_map {α : Type} {element? : List Item → Option α} {spell : α → List Item}
    {as : List α} (hne : as ≠ []) (hread : ∀ a, element? (spell a) = some a)
    (hcomma : ∀ a, .mark ',' ∉ spell a) :
    list? element? ([.mark ','].intercalate (as.map spell)) = some as := by
  refine list?_intercalate (by simpa using hne) (by simpa using fun a _ => hcomma a) ?_
  exact List.forall₂_map_left_iff.mpr (List.forall₂_same.mpr fun a _ => hread a)

end Statement

/-! ## Items of texts -/

def isDelimiter (c : Char) : Bool := c != '"' && !isWordPart c

def Reading.isOpen : Reading → Bool
  | .quoted _ => true
  | _ => false

/-- What is read ends in front of a delimiter, and at the end of the text. -/
theorem tokensFrom_delimited {r : Reading} (hr : r.isOpen = false) {rest : List Char}
    (h : rest.head?.all isDelimiter = true) :
    tokensFrom r rest = r.ended ++ tokensFrom .between rest := by
  cases rest with
  | nil => simp [tokensFrom, Reading.ended]
  | cons c rest =>
      have hc : c ≠ '"' ∧ isWordPart c = false := by simpa [isDelimiter] using h
      have hnext : r.next? c = none := by
        cases r with
        | between => rfl
        | word read => simp [Reading.next?, hc.2]
        | quoted read => cases hr
        | quote read => simp [Reading.next?, hc.1]
      have hbetween : Reading.between.next? c = none := rfl
      simp only [tokensFrom, hnext, hbetween, Reading.ended, List.nil_append, List.append_assoc]

def itemsFrom (d : Dialect) (count : Nat) (cs : List Char) : List Item :=
  items d count (tokensFrom .between cs)

/-- Whether a text stands for some items and leads from one number of parameters
to another, in front of a delimiter or of the end. -/
def Reads (d : Dialect) (count : Nat) (text : String) (is : List Item) (count' : Nat) : Prop :=
  ∀ rest, rest.head?.all isDelimiter = true →
    itemsFrom d count (text.toList ++ rest) = is ++ itemsFrom d count' rest

def Complete (d : Dialect) (text : String) (is : List Item) : Prop :=
  ∀ count rest, itemsFrom d count (text.toList ++ rest) = is ++ itemsFrom d count rest

section

variable {d : Dialect} {count count' count'' : Nat} {text text' : String} {is js : List Item}

theorem Complete.reads (h : Complete d text is) (count : Nat) : Reads d count text is count :=
  fun rest _ => h count rest

theorem Complete.append (h : Complete d text is) (h' : Reads d count text' js count') :
    Reads d count (text ++ text') (is ++ js) count' := by
  intro rest hrest
  rw [String.toList_append, List.append_assoc, h, h' rest hrest, List.append_assoc]

/-- Two texts in a row, where the second begins with a delimiter, so that the
last word of the first ends there. -/
theorem Reads.append (h : Reads d count text is count') (h' : Reads d count' text' js count'')
    (hstart : text'.toList.head?.all isDelimiter = true) :
    Reads d count (text ++ text') (is ++ js) count'' := by
  intro rest hrest
  have hhead : (text'.toList ++ rest).head?.all isDelimiter = true := by
    cases hcs : text'.toList with
    | nil => exact hrest
    | cons c cs =>
        rw [hcs] at hstart
        exact hstart
  rw [String.toList_append, List.append_assoc, h _ hhead, h' rest hrest, List.append_assoc]

theorem Reads.items_eq (h : Reads d count text is count') : items d count (tokens text) = is := by
  have hall := h [] rfl
  rw [List.append_nil] at hall
  exact hall.trans (List.append_nil is)

/-- A text that leads to a token which a delimiter ends. -/
theorem reads_of_leads {r : Reading} {t : Token} (hleads : Leads .between text [] r)
    (hr : r.isOpen = false) (hended : r.ended = [t])
    (hitem : ∀ ts, items d count (t :: ts) = is ++ items d count' ts) :
    Reads d count text is count' := by
  intro rest hrest
  rw [itemsFrom, hleads, List.nil_append, tokensFrom_delimited hr hrest, hended]
  exact hitem _

theorem reads_identifier (d : Dialect) (count : Nat) (column : String) :
    Reads d count (identifier column) [.name column] count := by
  refine reads_of_leads (t := .identifier column) (leads_identifier column) rfl ?_ ?_
  · rw [Reading.ended, String.ofList_toList]
  · intro ts
    cases d <;> rfl

theorem tokensFrom_word {cs : List Char} (h : ∀ c ∈ cs, isWordPart c = true)
    (read rest : List Char) :
    tokensFrom (.word read) (cs ++ rest) = tokensFrom (.word (read ++ cs)) rest := by
  induction cs generalizing read with
  | nil => rw [List.nil_append, List.append_nil]
  | cons c cs ih =>
      obtain ⟨hc, hcs⟩ := List.forall_mem_cons.mp h
      have hnext : (Reading.word read).next? c = some (.word (read ++ [c])) := by
        rw [Reading.next?, if_pos hc]
      rw [List.cons_append, tokensFrom, hnext]
      simp only
      rw [ih hcs, List.append_assoc, List.singleton_append]

theorem leads_word {c : Char} {cs : List Char} (h : ∀ a ∈ c :: cs, isWordPart a = true) :
    Leads .between (String.ofList (c :: cs)) [] (.word (c :: cs)) := by
  intro rest
  obtain ⟨hc, hcs⟩ := List.forall_mem_cons.mp h
  have hquote : c ≠ '"' := by
    rintro rfl
    cases hc
  have hstart : Reading.start c = ([], .word [c]) := by
    rw [Reading.start, if_neg hquote, if_pos hc]
  have hnext : Reading.between.next? c = none := rfl
  rw [String.toList_ofList, List.cons_append, tokensFrom, hnext]
  simp only [hstart, Reading.ended, List.nil_append]
  exact tokensFrom_word hcs [c] rest

theorem placeholder_postgres (index : Nat) :
    Dialect.placeholder .postgres index = String.ofList ('$' :: Nat.toDigits 10 index) := by
  rw [Dialect.placeholder, String.ofList_cons]
  rfl

/-- The placeholder of the next parameter stands for it, whether the engine
counts the marks or reads the number. -/
theorem reads_placeholder (d : Dialect) (count : Nat) :
    Reads d count (d.placeholder (count + 1)) [.parameter (count + 1)] (count + 1) := by
  cases d with
  | sqlite =>
      intro rest _
      have hmark : tokensFrom .between ("?".toList ++ rest) =
          .mark '?' :: tokensFrom .between rest := rfl
      rw [Dialect.placeholder, itemsFrom, hmark, items]
      rfl
  | postgres =>
      have hdigits : ∀ c ∈ Nat.toDigits 10 (count + 1), c.isDigit = true :=
        fun c => Nat.isDigit_of_mem_toDigits (by decide) (by decide)
      rw [placeholder_postgres]
      refine reads_of_leads (leads_word ?_) rfl rfl ?_
      · refine List.forall_mem_cons.mpr ⟨rfl, fun c hc => ?_⟩
        simp [isWordPart, Char.isAlphanum, hdigits c hc]
      · intro ts
        have hne : Nat.toDigits 10 (count + 1) ≠ [] := Nat.toDigits_ne_nil
        have hparameter : parameter? .postgres count
            (.word (String.ofList ('$' :: Nat.toDigits 10 (count + 1)))) = some (count + 1) := by
          have hall : (Nat.toDigits 10 (count + 1)).all Char.isDigit = true :=
            List.all_eq_true.mpr hdigits
          simp [parameter?, hne, hall, Decimal.digitsValue_toDigits]
        rw [items, hparameter]
        rfl

end

/-! ## Lists -/

/-- Whether texts stand for some items each, the parameters being counted
through from the first text to the last. -/
inductive ReadsAll (d : Dialect) : Nat → List String → List (List Item) → Nat → Prop
  | nil (count : Nat) : ReadsAll d count [] [] count
  | cons {count count' count'' : Nat} {text : String} {texts : List String} {is : List Item}
      {iss : List (List Item)} (first : Reads d count text is count')
      (rest : ReadsAll d count' texts iss count'') :
      ReadsAll d count (text :: texts) (is :: iss) count''

variable {d : Dialect} {s : Schema} {text : String}

/-- Texts with a separator between them, which ends the word or the name before
it, are read with an item between any two. -/
theorem ReadsAll.intercalate {count count' : Nat} {texts : List String} {iss : List (List Item)}
    (h : ReadsAll d count texts iss count') {separator : String}
    {item : Item} (hseparator : Complete d separator [item])
    (hstart : ∀ text, (separator ++ text).toList.head?.all isDelimiter = true) :
    Reads d count (String.intercalate separator texts) ([item].intercalate iss) count' := by
  induction h with
  | nil count => exact fun rest _ => rfl
  | @cons count count' count'' text texts is iss first rest ih =>
      cases rest with
      | nil => simpa using first
      | @cons _ _ _ text' texts is' iss second rest =>
          have hrest := first.append (hseparator.append ih) (hstart _)
          simpa [String.intercalate_cons_cons, String.append_assoc] using hrest

theorem ReadsAll.commas {count count' : Nat} {texts : List String} {iss : List (List Item)}
    (h : ReadsAll d count texts iss count') :
    Reads d count (String.intercalate "," texts) ([.mark ','].intercalate iss) count' := by
  have hcomma : Complete d "," [.mark ','] := by
    cases d <;> exact fun _ _ => rfl
  exact h.intercalate hcomma fun text => by rw [String.toList_append]; rfl

theorem readsAll_identifiers (d : Dialect) (count : Nat) (columns : List String) :
    ReadsAll d count (columns.map identifier) (columns.map ([.name ·])) count := by
  induction columns with
  | nil => exact .nil count
  | cons column columns ih => exact .cons (reads_identifier d count column) ih

/-- Placeholders in a row stand for the parameters in a row, from the next one
on. -/
theorem readsAll_placeholders (d : Dialect) (count n : Nat) :
    ReadsAll d count ((List.range' (count + 1) n).map d.placeholder)
      ((List.range' (count + 1) n).map ([.parameter ·])) (count + n) := by
  induction n generalizing count with
  | zero => exact .nil count
  | succ n ih =>
      have hrest := ih (count + 1)
      rw [Nat.add_assoc count 1 n, Nat.add_comm 1] at hrest
      exact .cons (reads_placeholder d count) hrest

def assignmentItems (p : String × Nat) : List Item := [.name p.1, .mark '=', .parameter p.2]

/-- Each column is assigned the parameter with its own number. -/
theorem readsAll_assignments (d : Dialect) (count : Nat) (columns : List String) :
    ReadsAll d count
      ((columns.zipIdx (count + 1)).map fun p => identifier p.1 ++ "=" ++ d.placeholder p.2)
      ((columns.zipIdx (count + 1)).map assignmentItems) (count + columns.length) := by
  have hequal : Complete d "=" [.mark '='] := by
    cases d <;> exact fun _ _ => rfl
  induction columns generalizing count with
  | nil => exact .nil count
  | cons column columns ih =>
      have hfirst := (reads_identifier d count column).append
        (hequal.append (reads_placeholder d count)) (by rw [String.toList_append]; rfl)
      have hrest := ih (count + 1)
      rw [← String.append_assoc] at hfirst
      rw [Nat.add_assoc count 1 columns.length, Nat.add_comm 1] at hrest
      exact .cons hfirst hrest

/-! ## Statements of schemas -/

theorem placeholders_eq (d : Dialect) (n : Nat) :
    Statements.placeholders d n = (List.range' 1 n).map d.placeholder := by
  rw [Statements.placeholders, List.range'_eq_map_range, List.map_map]
  apply List.map_congr_left
  intro i _
  rw [Function.comp_apply, Nat.add_comm]

theorem assignments_eq (d : Dialect) (columns : List String) :
    Statements.assignments d columns =
      (columns.zipIdx 1).map fun p => identifier p.1 ++ "=" ++ d.placeholder p.2 := by
  rw [Statements.assignments, placeholders_eq, List.zipIdx_eq_zip_range', List.zip,
    List.map_zipWith, List.zipWith_map_right]

def insertionItems (columns : List String) : List Item :=
  if columns.isEmpty then [.word "DEFAULT", .word "VALUES"]
  else [Item.mark '('] ++ ([Item.mark ','].intercalate (columns.map ([.name ·]))
    ++ ([Item.mark ')', Item.word "VALUES", Item.mark '(']
      ++ ([Item.mark ','].intercalate ((List.range' 1 columns.length).map ([.parameter ·]))
        ++ [Item.mark ')'])))

/-- What is inserted is read as the columns and as many parameters, or as the
words that stand for no columns at all. -/
theorem reads_insertion (d : Dialect) (columns : List String) :
    Reads d 0 (Statements.insertion d columns) (insertionItems columns) columns.length := by
  unfold Statements.insertion insertionItems
  split
  next hempty =>
    have hdefault : Complete d "DEFAULT " [.word "DEFAULT"] := by cases d <;> exact fun _ _ => rfl
    have hvalues : Reads d 0 "VALUES" [.word "VALUES"] 0 := by
      refine reads_of_leads (r := .word "VALUES".toList) (t := .word "VALUES") (fun _ => rfl) rfl
        rfl fun ts => ?_
      cases d <;> rfl
    have htext : "DEFAULT VALUES" = "DEFAULT " ++ "VALUES" := by decide +kernel
    rw [htext, List.isEmpty_iff.mp hempty]
    exact hdefault.append hvalues
  next hsome =>
    have hopen : Complete d "(" [.mark '('] := by cases d <;> exact fun _ _ => rfl
    have hvalues : Complete d ") VALUES (" [.mark ')', .word "VALUES", .mark '('] := by
      cases d <;> exact fun _ _ => rfl
    have hclose : Complete d ")" [.mark ')'] := by cases d <;> exact fun _ _ => rfl
    have hcolumns := (readsAll_identifiers d 0 columns).commas
    have hplaceholders := (readsAll_placeholders d 0 columns.length).commas
    rw [Nat.zero_add, Nat.zero_add, ← placeholders_eq] at hplaceholders
    have hlist := hopen.append (hcolumns.append (hvalues.append
      (hplaceholders.append (hclose.reads _) rfl)) (by rw [String.toList_append]; rfl))
    simpa only [String.append_assoc] using hlist

def returningItems (d : Dialect) : List Item :=
  if d.returnsKey then [.word "RETURNING", .word "id"] else []

theorem reads_returning (d : Dialect) (count : Nat) :
    Reads d count (if d.returnsKey then " RETURNING " ++ keyColumn else "") (returningItems d)
      count := by
  cases d with
  | sqlite => exact fun _ _ => rfl
  | postgres =>
      have hreturning : Complete .postgres " RETURNING " [.word "RETURNING"] := fun _ _ => rfl
      have hkey : Reads .postgres count "id" [.word "id"] count :=
        reads_of_leads (r := .word "id".toList) (t := .word "id") (fun _ => rfl) rfl rfl
          fun _ => rfl
      exact hreturning.append hkey

theorem items_insert (d : Dialect) (s : Schema) :
    items d 0 (tokens (Statements.ofSchema d s).insert) =
      [Item.word "INSERT", Item.word "INTO"] ++
        ([Item.name s.name] ++ (insertionItems s.dataColumns ++ returningItems d)) := by
  have hhead : Complete d "INSERT INTO " [.word "INSERT", .word "INTO"] := by
    cases d <;> exact fun _ _ => rfl
  have hblank : Complete d " " [] := by cases d <;> exact fun _ _ => rfl
  have hstart : (if d.returnsKey then " RETURNING " ++ keyColumn else "").toList.head?.all
      isDelimiter = true := by cases d <;> rfl
  have hvalues := (reads_insertion d s.dataColumns).append (reads_returning d _) hstart
  have hall := hhead.append ((reads_identifier d 0 s.name).append (hblank.append hvalues)
    (by rw [String.toList_append]; rfl))
  have htext : (Statements.ofSchema d s).insert = "INSERT INTO " ++ identifier s.name ++ " " ++
      Statements.insertion d s.dataColumns ++
        (if d.returnsKey then " RETURNING " ++ keyColumn else "") := rfl
  simp only [String.append_assoc] at htext
  rw [htext, hall.items_eq]
  rfl

theorem reads_whereKey (d : Dialect) (count : Nat) :
    Reads d count (" WHERE " ++ keyColumn ++ "=" ++ d.placeholder (count + 1))
      [.word "WHERE", .word "id", .mark '=', .parameter (count + 1)] (count + 1) := by
  have hwhere : Complete d " WHERE id=" [.word "WHERE", .word "id", .mark '='] := by
    cases d <;> exact fun _ _ => rfl
  exact hwhere.append (reads_placeholder d count)

/-- There is an update where there are columns to write, and this is its
text. -/
theorem update_eq_some_iff : (Statements.ofSchema d s).update = some text ↔ s.dataColumns ≠ [] ∧
      "UPDATE " ++ identifier s.name ++ " SET " ++
        String.intercalate "," (Statements.assignments d s.dataColumns) ++
        (" WHERE " ++ keyColumn ++ "=" ++ d.placeholder (s.dataColumns.length + 1)) = text := by
  have hupdate : (Statements.ofSchema d s).update = if s.dataColumns.isEmpty then none
      else some ("UPDATE " ++ identifier s.name ++ " SET " ++
        String.intercalate "," (Statements.assignments d s.dataColumns) ++
        (" WHERE " ++ keyColumn ++ "=" ++ d.placeholder (s.dataColumns.length + 1))) := rfl
  rw [hupdate, Option.ite_none_left_eq_some, Option.some.injEq, List.isEmpty_iff]

theorem items_update (h : (Statements.ofSchema d s).update = some text) :
    items d 0 (tokens text) = [Item.word "UPDATE"] ++ ([Item.name s.name] ++ ([Item.word "SET"] ++
      ([Item.mark ','].intercalate ((s.dataColumns.zipIdx 1).map assignmentItems) ++
        [Item.word "WHERE", Item.word "id", Item.mark '=',
          Item.parameter (s.dataColumns.length + 1)]))) := by
  have hhead : Complete d "UPDATE " [.word "UPDATE"] := by cases d <;> exact fun _ _ => rfl
  have hset : Complete d " SET " [.word "SET"] := by cases d <;> exact fun _ _ => rfl
  have hassignments := (readsAll_assignments d 0 s.dataColumns).commas
  rw [Nat.zero_add, Nat.zero_add, ← assignments_eq] at hassignments
  have hwhere := reads_whereKey d s.dataColumns.length
  have hall := hhead.append ((reads_identifier d 0 s.name).append (hset.append
    (hassignments.append hwhere (by simp only [String.toList_append]; rfl)))
    (by rw [String.toList_append]; rfl))
  obtain ⟨-, rfl⟩ := update_eq_some_iff.mp h
  simp only [String.append_assoc] at hall ⊢
  exact hall.items_eq

/-- The two statements on the row with a key begin differently, and go on with
the table and its key alike. -/
theorem items_whereKey {front : String} {is : List Item} (h : Complete d front is) (s : Schema) :
    items d 0 (tokens (front ++ identifier s.name ++
        (" WHERE " ++ keyColumn ++ "=" ++ d.placeholder 1))) =
      is ++ ([Item.name s.name] ++
        [Item.word "WHERE", Item.word "id", Item.mark '=', Item.parameter 1]) := by
  have hall := h.append ((reads_identifier d 0 s.name).append (reads_whereKey d 0)
    (by simp only [String.toList_append]; rfl))
  rw [← String.append_assoc] at hall
  exact hall.items_eq

/-! ## Statements read back -/

theorem returned?_returningItems (d : Dialect) :
    Statement.returned? (returningItems d) = some (if d = .postgres then some "id" else none) := by
  cases d <;> rfl

theorem not_mem_intercalate_map {α : Type} {spell : α → List Item} {stop : Item}
    (hstop : stop ≠ .mark ',') (h : ∀ a, stop ∉ spell a) (as : List α) :
    stop ∉ [.mark ','].intercalate (as.map spell) :=
  List.not_mem_intercalate hstop (by simpa using fun a _ => h a)

/-- An insertion is read back with the table, all its columns in their order and
a parameter for each. -/
theorem read?_insert (d : Dialect) (s : Schema) :
    Statement.read? d (Statements.ofSchema d s).insert = some (
      if s.dataColumns = [] then .insertDefaults s.name (if d = .postgres then some "id" else none)
      else .insert s.name s.dataColumns (List.range' 1 s.dataColumns.length)
        (if d = .postgres then some "id" else none)) := by
  have hread : Statement.read? d (Statements.ofSchema d s).insert =
      Statement.insertion? s.name (insertionItems s.dataColumns ++ returningItems d) := by
    rw [Statement.read?, items_insert]
    rfl
  rw [hread, insertionItems]
  -- A table with no column but its key is inserted into by its defaults.
  by_cases hempty : s.dataColumns = []
  · have hdefaults : ∀ rest, Statement.insertion? s.name
        ([Item.word "DEFAULT", Item.word "VALUES"] ++ rest) =
        (Statement.returned? rest).map (.insertDefaults s.name) := fun _ => rfl
    simp only [hempty, List.isEmpty_nil, if_true]
    rw [hdefaults, returned?_returningItems]
    rfl
  · have hnot : s.dataColumns.isEmpty = false := by simpa using hempty
    have hrange : List.range' 1 s.dataColumns.length ≠ [] := by simpa using hempty
    simp only [hnot, Bool.false_eq_true, if_false, List.append_assoc, List.cons_append,
      List.nil_append, if_neg hempty]
    rw [Statement.insertion?,
      Statement.upTo?_append (not_mem_intercalate_map (by decide) (by simp) _)]
    simp only [Option.bind_eq_bind, Option.bind_some]
    rw [Statement.list?_map hempty (fun _ => rfl) (by simp)]
    simp only [Option.bind_some]
    rw [Statement.upTo?_append (not_mem_intercalate_map (by decide) (by simp) _)]
    simp only [Option.bind_some]
    rw [Statement.list?_map hrange (fun _ => rfl) (by simp), returned?_returningItems]
    rfl

/-- An update is read back with each column and its parameter, and with the key
behind them all. -/
theorem read?_update (h : (Statements.ofSchema d s).update = some text) : Statement.read? d text =
      some (.update s.name (s.dataColumns.zipIdx 1) "id" (s.dataColumns.length + 1)) := by
  have hsome : s.dataColumns.zipIdx 1 ≠ [] := by simpa using (update_eq_some_iff.mp h).1
  have hread : ∀ rest, Statement.ofItems? ([Item.word "UPDATE"] ++ ([Item.name s.name] ++
      ([Item.word "SET"] ++ rest))) = (Statement.upTo? (.word "WHERE") rest).bind fun parts =>
        (Statement.list? Statement.assignment? parts.1).bind fun assignments =>
          (Statement.comparison? parts.2).bind fun key =>
            some (.update s.name assignments key.1 key.2) := fun _ => rfl
  rw [Statement.read?, items_update h, hread,
    Statement.upTo?_append (not_mem_intercalate_map (by decide) (by simp [assignmentItems]) _)]
  simp only [Option.bind_some]
  rw [Statement.list?_map hsome (fun _ => rfl) (by simp [assignmentItems])]
  rfl

theorem read?_delete (d : Dialect) (s : Schema) :
    Statement.read? d (Statements.ofSchema d s).delete = some (.delete s.name "id" 1) := by
  have hfront : Complete d "DELETE FROM " [.word "DELETE", .word "FROM"] := by
    cases d <;> exact fun _ _ => rfl
  have htext : (Statements.ofSchema d s).delete = "DELETE FROM " ++ identifier s.name ++
      (" WHERE " ++ keyColumn ++ "=" ++ d.placeholder 1) := rfl
  rw [Statement.read?, htext, items_whereKey hfront]
  rfl

theorem read?_findByKey (d : Dialect) (s : Schema) :
    Statement.read? d (Statements.ofSchema d s).findByKey = some (.select s.name "id" 1) := by
  have hfront : Complete d "SELECT * FROM " [.word "SELECT", .mark '*', .word "FROM"] := by
    cases d <;> exact fun _ _ => rfl
  have htext : (Statements.ofSchema d s).findByKey = "SELECT * FROM " ++ identifier s.name ++
      (" WHERE " ++ keyColumn ++ "=" ++ d.placeholder 1) := rfl
  rw [Statement.read?, htext, items_whereKey hfront]
  rfl

/-! ## The table that is created -/

/-- Tokens without parameters are items as they are. -/
def Plain (d : Dialect) (ts : List Token) : Prop :=
  ∀ count us, items d count (ts ++ us) = ts.map .ofToken ++ items d count us

theorem Plain.append {ts us : List Token} (ht : Plain d ts) (hu : Plain d us) :
    Plain d (ts ++ us) := by
  intro count vs
  rw [List.append_assoc, ht, hu, List.map_append, List.append_assoc]

/-- Lists of such tokens with commas between them are items with commas between
them. -/
theorem items_intercalate {lists : List (List Token)} (h : ∀ ts ∈ lists, Plain d ts) (count : Nat)
    (us : List Token) :
    items d count ([Token.mark ','].intercalate lists ++ us) =
      [Item.mark ','].intercalate (lists.map (·.map .ofToken)) ++ items d count us := by
  have hcomma : Plain d [.mark ','] := by cases d <;> exact fun _ _ => rfl
  induction lists with
  | nil => rfl
  | cons first lists ih =>
      obtain ⟨hfirst, hlists⟩ := List.forall_mem_cons.mp h
      cases lists with
      | nil => simpa using hfirst count us
      | cons second lists =>
          have hall := (hfirst.append hcomma) count
            ([.mark ','].intercalate (second :: lists) ++ us)
          rw [ih hlists] at hall
          simpa [List.intercalate_cons_cons, Item.ofToken] using hall

theorem plain_columnTokens (d : Dialect) (f : Field) : Plain d (columnTokens d f) := by
  have hname : Plain d [.identifier f.name] := by cases d <;> exact fun _ _ => rfl
  have htype : Plain d (typeTokens d f.kind) := by
    cases d <;> cases f.kind <;> exact fun _ _ => rfl
  have hnull : Plain d (if f.optional then [] else [.word "NOT", .word "NULL"]) := by
    cases d <;> cases f.optional <;> exact fun _ _ => rfl
  exact (hname.append htype).append hnull

theorem plain_keyTokens (d : Dialect) : Plain d (keyTokens d) := by
  cases d <;> exact fun _ _ => rfl

def definitionItems (d : Dialect) (s : Schema) : List (List Item) :=
  ((tableDefinitions d s).map Prod.snd).map (·.map .ofToken)

theorem definitionItems_eq (d : Dialect) (s : Schema) :
    definitionItems d s = (keyTokens d).map .ofToken ::
      s.dataFields.map fun f => (columnTokens d f).map .ofToken := by
  simp [definitionItems, tableDefinitions]

theorem items_creation (d : Dialect) (s : Schema) :
    items d 0 (tokens (Statements.creation d s)) =
      [Item.word "CREATE", Item.word "TABLE", Item.word "IF", Item.word "NOT", Item.word "EXISTS",
        Item.name s.name, Item.mark '('] ++
      ([Item.mark ','].intercalate (definitionItems d s) ++ [Item.mark ')']) := by
  have hhead : Plain d [.word "CREATE", .word "TABLE", .word "IF", .word "NOT", .word "EXISTS",
      .identifier s.name, .mark '('] := by cases d <;> exact fun _ _ => rfl
  have hclose : items d 0 [.mark ')'] = [.mark ')'] := by cases d <;> rfl
  have hplain : ∀ ts ∈ (tableDefinitions d s).map Prod.snd, Plain d ts := by
    simp only [tableDefinitions, List.map_cons, List.map_map, List.mem_cons, List.mem_map]
    rintro ts (rfl | ⟨f, -, rfl⟩)
    · exact plain_keyTokens d
    · exact plain_columnTokens d f
  rw [tokens_creation, hhead, items_intercalate hplain, hclose]
  rfl

/-- The items of a definition have no comma and no closing parenthesis, so
definitions can be told apart. -/
theorem not_mem_definitionItems {is : List Item}
    (h : is ∈ definitionItems d s) : .mark ',' ∉ is ∧ .mark ')' ∉ is := by
  have hmark : ∀ t c, Item.ofToken t = .mark c ↔ t = .mark c := by
    intro t c
    cases t <;> simp [Item.ofToken]
  obtain ⟨ts, hts, rfl⟩ := List.mem_map.mp h
  simpa [hmark] using not_mem_of_mem hts

theorem exists_definition (d : Dialect) (f : Field) :
    ∃ words, Statement.definition? ((columnTokens d f).map .ofToken) = some (f.name, words) := by
  rw [columnTokens]
  cases d <;> cases f.kind <;> cases f.optional <;> exact ⟨_, rfl⟩

/-- The definitions of all columns are read, each with the name of its column
and some words. -/
theorem exists_definitions (d : Dialect) (fields : List Field) :
    ∃ definitions : List (String × List String), definitions.map Prod.fst = fields.map Field.name ∧
      List.Forall₂ (fun is a => Statement.definition? is = some a)
        (fields.map fun f => (columnTokens d f).map .ofToken) definitions := by
  induction fields with
  | nil => exact ⟨[], rfl, .nil⟩
  | cons f fields ih =>
      obtain ⟨words, hwords⟩ := exists_definition d f
      obtain ⟨definitions, hnames, hdefinitions⟩ := ih
      exact ⟨(f.name, words) :: definitions, by simp [hnames], .cons hwords hdefinitions⟩

theorem exists_keyDefinition (d : Dialect) :
    ∃ words, Statement.definition? ((keyTokens d).map .ofToken) = some ("id", words) ∧
      ["PRIMARY", "KEY"] <:+: words := by
  cases d with
  | sqlite => exact ⟨_, rfl, ["INTEGER"], ["AUTOINCREMENT"], rfl⟩
  | postgres => exact ⟨_, rfl, ["SERIAL"], [], rfl⟩

/-- The statement that creates a table is read back with the key, which is the
primary one, and then the columns in their order. -/
theorem read?_createTable (d : Dialect) (s : Schema) :
    ∃ key definitions, Statement.read? d (Statements.ofSchema d s).createTable =
        some (.create s.name (("id", key) :: definitions)) ∧
      ["PRIMARY", "KEY"] <:+: key ∧ definitions.map Prod.fst = s.dataColumns := by
  obtain ⟨key, hkey, hprimary⟩ := exists_keyDefinition d
  obtain ⟨definitions, hnames, hdefinitions⟩ := exists_definitions d s.dataFields
  refine ⟨key, definitions, ?_, hprimary, hnames⟩
  have hread : ∀ rest, Statement.ofItems? ([Item.word "CREATE", Item.word "TABLE", Item.word "IF",
      Item.word "NOT", Item.word "EXISTS", Item.name s.name, Item.mark '('] ++ rest) =
      (Statement.upTo? (.mark ')') rest).bind fun parts =>
        (Statement.list? Statement.definition? parts.1).bind fun columns =>
          if parts.2.isEmpty then some (.create s.name columns) else none := fun _ => rfl
  -- The commas and the parenthesis behind the list are no part of what it lists.
  have hstop : .mark ')' ∉ [Item.mark ','].intercalate (definitionItems d s) :=
    List.not_mem_intercalate (by decide) fun is his => (not_mem_definitionItems his).2
  have hlist : Statement.list? Statement.definition?
      ([.mark ','].intercalate (definitionItems d s)) = some (("id", key) :: definitions) := by
    refine Statement.list?_intercalate ?_ (fun is his => (not_mem_definitionItems his).1) ?_
    · simp [definitionItems_eq]
    · rw [definitionItems_eq]
      exact .cons hkey hdefinitions
  have htext : (Statements.ofSchema d s).createTable = Statements.creation d s := rfl
  rw [Statement.read?, htext, items_creation, hread, Statement.upTo?_append hstop]
  simp only [Option.bind_some]
  rw [hlist]
  rfl

/-! ## Insertions determine their tables -/

theorem getLast?_append_text {text' : String} {c : Char}
    (h : text'.toList.getLast? = some c) : (text ++ text').toList.getLast? = some c := by
  rw [String.toList_append, List.getLast?_append, h]
  rfl

/-- The last character of an insertion tells the engine. -/
theorem getLast?_insert (d : Dialect) (s : Schema) :
    (Statements.ofSchema d s).insert.toList.getLast? = some 'd' ↔ d = .postgres := by
  cases d with
  | postgres =>
      have hlast : (Statements.ofSchema .postgres s).insert.toList.getLast? = some 'd' :=
        getLast?_append_text rfl
      simp [hlast]
  | sqlite =>
      obtain ⟨c, hc, hlast⟩ : ∃ c, c ≠ 'd' ∧
          (Statements.insertion .sqlite s.dataColumns).toList.getLast? = some c := by
        unfold Statements.insertion
        split
        · exact ⟨'S', by decide, rfl⟩
        · exact ⟨')', by decide, getLast?_append_text rfl⟩
      have hinsert : (Statements.ofSchema .sqlite s).insert.toList.getLast? = some c := by
        have htext : (Statements.ofSchema .sqlite s).insert = "INSERT INTO " ++ identifier s.name
            ++ " " ++ Statements.insertion .sqlite s.dataColumns ++ "" := rfl
        rw [htext, String.append_empty]
        exact getLast?_append_text hlast
      simp [hinsert, hc]

/-- The text of an insertion determines the engine, the table and its columns,
since it can be read back. -/
theorem eq_of_insert_eq {d' : Dialect} {s' : Schema}
    (h : (Statements.ofSchema d' s').insert = (Statements.ofSchema d s).insert) :
    d' = d ∧ s'.name = s.name ∧ s'.dataColumns = s.dataColumns := by
  have hdialect : d' = d := by
    have hiff : d' = .postgres ↔ d = .postgres := by
      rw [← getLast?_insert d' s', h, getLast?_insert]
    cases d <;> cases d' <;> simp_all
  subst hdialect
  have hread := read?_insert d' s'
  rw [h, read?_insert, Option.some.injEq] at hread
  by_cases hs : s.dataColumns = [] <;> by_cases hs' : s'.dataColumns = [] <;>
    simp_all

/-- Read the way its engine reads it, each statement on the table of a schema
binds parameter `i` to the column of number `i`, and the key to the parameter
behind them. -/
theorem statements_bind_columns (d : Dialect) (s : Schema) :
    let columns := (s.fields.map Field.name).filter (· ≠ "id")
    let returned := if d = .postgres then some "id" else none
    let statements := Statements.ofSchema d s
    Statement.read? d statements.insert = some (
      if columns = [] then .insertDefaults s.name returned
      else .insert s.name columns (List.range' 1 columns.length) returned) ∧
    (statements.update.isSome ↔ 0 < columns.length) ∧
    (∀ text, statements.update = some text → Statement.read? d text =
      some (.update s.name (columns.zipIdx 1) "id" (columns.length + 1))) ∧
    Statement.read? d statements.delete = some (.delete s.name "id" 1) ∧
    Statement.read? d statements.findByKey = some (.select s.name "id" 1) ∧
    (∃ key definitions, Statement.read? d statements.createTable =
        some (.create s.name (("id", key) :: definitions)) ∧
      ["PRIMARY", "KEY"] <:+: key ∧ definitions.map Prod.fst = columns) ∧
    s.columns = "id" :: columns ∧
    ∀ d' s', (Statements.ofSchema d' s').insert = statements.insert →
      d' = d ∧ s'.name = s.name ∧ (s'.fields.map Field.name).filter (· ≠ "id") = columns := by
  have hcolumns : ∀ s : Schema, (s.fields.map Field.name).filter (· ≠ "id") = s.dataColumns := by
    intro s
    rw [List.filter_map]
    rfl
  simp only [hcolumns]
  refine ⟨read?_insert d s, ?_, fun _ => read?_update, read?_delete d s, read?_findByKey d s,
    read?_createTable d s, rfl, fun _ _ => eq_of_insert_eq⟩
  simp [Option.isSome_iff_exists, update_eq_some_iff, List.length_pos_iff]

example : Statement.read? .postgres (Statements.ofSchema .postgres ⟨"a\"(",
    [⟨"$2,?", "Int", false, []⟩, ⟨"id", "Int", false, []⟩, ⟨"\"", "Text", true, []⟩], 1⟩).insert =
    some (.insert "a\"(" ["$2,?", "\""] [1, 2] (some "id")) := by
  decide +kernel

end BlockLang.Sql
