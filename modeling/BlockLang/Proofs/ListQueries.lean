import BlockLang.Proofs.EmissionChecks
import BlockLang.Proofs.Lexemes
import BlockLang.Proofs.ParsedSchemas
import BlockLang.Proofs.StatementTexts
import BlockLang.Sql.ListQuery

/-! # What list queries say

A query for rows takes filters and an order from its caller. They are columns of the schema, or
there is no query; and a query is made of fixed parts and quoted names only, so that the engine
reads back the columns that were asked for, each with the parameter of its own number. The columns
of a schema that was read from a source are words, which need no doubled quotes, so the templates of
generated code make the same texts.
-/

namespace BlockLang

/-! ## The text of an order -/

theorem bne_colon_of_not_mem {cs : List Char} (h : ':' ∉ cs) :
    ∀ c ∈ cs.reverse, (c != ':') = true := by
  intro c hc
  apply bne_iff_ne.mpr
  rintro rfl
  exact h (List.mem_reverse.mp hc)

/-- A text is split at its last colon, so the field in front of it may have
colons of its own. -/
theorem splitLastColon?_append {field word : List Char} (h : ':' ∉ word) :
    splitLastColon? (field ++ ':' :: word) = some (field, word) := by
  have hword := bne_colon_of_not_mem h
  have hspan : (field ++ ':' :: word).reverse.span (· != ':') =
      (word.reverse, ':' :: field.reverse) := by
    rw [List.reverse_append, List.reverse_cons, List.append_assoc, List.singleton_append,
      List.span_eq_takeWhile_dropWhile, List.takeWhile_append_of_pos hword,
      List.dropWhile_append_of_pos hword]
    simp
  rw [splitLastColon?, hspan]
  simp

theorem splitLastColon?_of_not_mem {cs : List Char} (h : ':' ∉ cs) :
    splitLastColon? cs = none := by
  rw [splitLastColon?, List.span_eq_takeWhile_dropWhile,
    List.dropWhile_eq_nil_iff.mpr (bne_colon_of_not_mem h)]

namespace RowOrder

/-- What stands behind the last colon is a direction, or belongs to the
field. -/
theorem ofText_append {field word : String} (h : ':' ∉ word.toList) :
    ofText (field ++ ":" ++ word) =
      if word.map Char.toLower = "asc" then ⟨field, .ascending⟩
      else if word.map Char.toLower = "desc" then ⟨field, .descending⟩
      else ⟨field ++ ":" ++ word, .ascending⟩ := by
  have htext : (field ++ ":" ++ word).toList = field.toList ++ ':' :: word.toList := by
    simp [String.toList_append]
  have hdirection : Direction.ofWord? word =
      if word.map Char.toLower = "asc" then some .ascending
      else if word.map Char.toLower = "desc" then some .descending else none := by
    simp only [Direction.ofWord?, List.find?_cons, Direction.spelling,
      eq_comm (b := String.map _ _)]
    split_ifs <;> simp_all
  rw [ofText, htext, splitLastColon?_append h]
  simp only [String.ofList_toList, hdirection]
  split_ifs <;> rfl

/-- A text without a colon is a field, and its rows come in ascending order. -/
theorem ofText_of_not_mem {text : String} (h : ':' ∉ text.toList) :
    ofText text = ⟨text, .ascending⟩ := by
  rw [ofText, splitLastColon?_of_not_mem h]

end RowOrder

/-! ## Columns that are none -/

namespace Schema

def namedColumns (filters : List String) (sort : Option RowOrder) : List String :=
  filters ++ (sort.map RowOrder.field).toList

def queryText (d : Dialect) (s : Schema) (filters : List String) (sort : Option RowOrder) :
    String :=
  "SELECT * FROM " ++ Sql.identifier s.name ++ conditions d filters ++ ordering sort

def columnErrors (s : Schema) (columns : List String) : List EmitError :=
  columns.flatMap fun c => if c ∈ s.columns then [] else [.unknownColumn s.name c]

/-- A query is refused for the first column that is none. -/
theorem reports_listQuery (d : Dialect) (s : Schema) (filters : List String)
    (sort : Option RowOrder) :
    Reports (s.listQuery d filters sort) (s.columnErrors (namedColumns filters sort)) := by
  have hcolumn : ∀ c, Reports (s.checkColumn c)
      (if c ∈ s.columns then [] else [.unknownColumn s.name c]) :=
    fun c => reports_guard (c ∈ s.columns) () _
  have hsort : Reports ((sort.map RowOrder.field).forM s.checkColumn)
      (s.columnErrors (sort.map RowOrder.field).toList) := by
    cases sort with
    | none => exact .done ()
    | some o => simpa [columnErrors] using hcolumn o.field
  have hfilters : Reports (filters.forM s.checkColumn) (s.columnErrors filters) :=
    reports_forM fun c _ => hcolumn c
  have herrors : s.columnErrors (namedColumns filters sort) =
      s.columnErrors filters ++ s.columnErrors (sort.map RowOrder.field).toList := by
    rw [columnErrors, namedColumns, List.flatMap_append]
    rfl
  rw [herrors]
  exact hfilters.bind fun _ _ => hsort.map fun _ => s.queryText d filters sort

theorem columnErrors_eq_nil_iff {s : Schema} {columns : List String} :
    s.columnErrors columns = [] ↔ ∀ c ∈ columns, c ∈ s.columns := by
  rw [columnErrors, List.flatMap_eq_nil_iff]
  refine forall₂_congr fun c _ => ?_
  split <;> simp [*]

/-- The first error is that of the first column that is none: all columns before
it are columns of the schema. -/
theorem head?_columnErrors_iff {s : Schema} {columns : List String} {e : EmitError} :
    (s.columnErrors columns).head? = some e ↔ ∃ before c after, columns = before ++ c :: after ∧
      (∀ b ∈ before, b ∈ s.columns) ∧ c ∉ s.columns ∧ e = .unknownColumn s.name c := by
  induction columns with
  | nil => simp [columnErrors]
  | cons first rest ih =>
      have hcons : s.columnErrors (first :: rest) =
          (if first ∈ s.columns then [] else [.unknownColumn s.name first]) ++
            s.columnErrors rest := by
        rw [columnErrors, List.flatMap_cons]
        rfl
      rw [hcons]
      by_cases hfirst : first ∈ s.columns
      · rw [if_pos hfirst, List.nil_append, ih]
        constructor
        · rintro ⟨before, c, after, rfl, hbefore, hc⟩
          exact ⟨first :: before, c, after, rfl, List.forall_mem_cons.mpr ⟨hfirst, hbefore⟩, hc⟩
        · rintro ⟨before, c, after, hsplit, hbefore, hc, he⟩
          cases before with
          | nil =>
              obtain ⟨rfl, -⟩ := List.cons.inj hsplit
              exact absurd hfirst hc
          | cons b before =>
              obtain ⟨rfl, rfl⟩ := List.cons.inj hsplit
              exact ⟨before, c, after, rfl, (List.forall_mem_cons.mp hbefore).2, hc, he⟩
      · rw [if_neg hfirst]
        constructor
        · intro h
          obtain rfl := Option.some.inj h
          exact ⟨[], first, rest, rfl, by simp, hfirst, rfl⟩
        · rintro ⟨before, c, after, hsplit, hbefore, -, rfl⟩
          cases before with
          | nil =>
              obtain ⟨rfl, -⟩ := List.cons.inj hsplit
              rfl
          | cons b before =>
              obtain ⟨rfl, -⟩ := List.cons.inj hsplit
              exact absurd (List.forall_mem_cons.mp hbefore).1 hfirst

/-- A query that is made has a text that is given by its columns, and these are
columns of the schema. -/
theorem listQuery_eq_ok {d : Dialect} {s : Schema} {filters : List String}
    {sort : Option RowOrder} {text : String} (h : s.listQuery d filters sort = .ok text) :
    text = s.queryText d filters sort ∧ ∀ c ∈ namedColumns filters sort, c ∈ s.columns := by
  have hcolumns : ∀ c ∈ namedColumns filters sort, c ∈ s.columns :=
    columnErrors_eq_nil_iff.mp ((reports_listQuery d s filters sort).ok_iff.mp ⟨text, h⟩)
  simp only [listQuery, Except.bind_eq_ok_iff] at h
  obtain ⟨_, -, _, -, htext⟩ := h
  exact ⟨(Except.ok.inj htext).symm, hcolumns⟩

end Schema

namespace Sql

/-! ## Queries read back -/

/-- A query for rows: each condition compares a column with a parameter. -/
structure Query where
  table : String
  conditions : List (String × Nat)
  order : Option (String × Direction)
  deriving DecidableEq, Repr

namespace Query

def direction? : Item → Option Direction
  | .word "ASC" => some .ascending
  | .word "DESC" => some .descending
  | _ => none

def order? : List Item → Option (Option (String × Direction))
  | [] => some none
  | [.word "ORDER", .word "BY", .name column, last] => (direction? last).map fun d => (column, d)
  | _ => none

/-- The conditions with words between them, and what follows them. -/
def conditions? : List Item → Option (List (String × Nat) × List Item)
  | .name column :: .mark '=' :: .parameter number :: .word "AND" :: rest =>
    (conditions? rest).map fun parts => ((column, number) :: parts.1, parts.2)
  | .name column :: .mark '=' :: .parameter number :: rest => some ([(column, number)], rest)
  | _ => none

def filter? : List Item → Option (List (String × Nat) × List Item)
  | .word "WHERE" :: rest => conditions? rest
  | rest => some ([], rest)

def ofItems? : List Item → Option Query
  | .word "SELECT" :: .mark '*' :: .word "FROM" :: .name table :: rest => do
    let filtered ← filter? rest
    let order ← order? filtered.2
    return ⟨table, filtered.1, order⟩
  | _ => none

/-- The query that an engine reads from a text, with the parameters numbered as
the engine numbers them. -/
def read? (d : Dialect) (text : String) : Option Query := ofItems? (items d 0 (tokens text))

end Query

def orderItems : Option RowOrder → List Item
  | none => []
  | some o => [.word "ORDER", .word "BY", .name o.field, .word o.direction.keyword]

def conditionItems (filters : List String) : List Item :=
  if filters.isEmpty then []
  else .word "WHERE" :: [Item.word "AND"].intercalate ((filters.zipIdx 1).map assignmentItems)

/-- The conditions are read as they were meant: each column with the parameter
of its own number. -/
theorem reads_conditions (d : Dialect) (filters : List String) :
    Reads d 0 (Schema.conditions d filters) (conditionItems filters) filters.length := by
  unfold Schema.conditions conditionItems
  split
  next hempty =>
    rw [List.isEmpty_iff.mp hempty]
    exact fun _ _ => rfl
  next =>
    have hand : Complete d " AND " [.word "AND"] := by cases d <;> exact fun _ _ => rfl
    have hwhere : Complete d " WHERE " [.word "WHERE"] := by cases d <;> exact fun _ _ => rfl
    have hall := (readsAll_assignments d 0 filters).intercalate hand
      fun text => by rw [String.toList_append]; rfl
    rw [Nat.zero_add, Nat.zero_add, ← assignments_eq] at hall
    exact hwhere.append hall

theorem reads_ordering (d : Dialect) (count : Nat) (sort : Option RowOrder) :
    Reads d count (Schema.ordering sort) (orderItems sort) count := by
  cases sort with
  | none => exact fun _ _ => rfl
  | some o =>
      have horder : Complete d " ORDER BY " [.word "ORDER", .word "BY"] := by
        cases d <;> exact fun _ _ => rfl
      have hblank : Complete d " " [] := by cases d <;> exact fun _ _ => rfl
      have hkeyword : Reads d count o.direction.keyword [.word o.direction.keyword] count := by
        cases o.direction with
        | ascending =>
            refine reads_of_leads (r := .word "ASC".toList) (t := .word "ASC") (fun _ => rfl) rfl
              rfl fun ts => ?_
            cases d <;> rfl
        | descending =>
            refine reads_of_leads (r := .word "DESC".toList) (t := .word "DESC") (fun _ => rfl) rfl
              rfl fun ts => ?_
            cases d <;> rfl
      have hall := horder.append ((reads_identifier d count o.field).append
        (hblank.append hkeyword) (by rw [String.toList_append]; rfl))
      rw [Schema.ordering, String.append_assoc, String.append_assoc]
      exact hall

/-- A whole query as the engine sees it. -/
theorem items_queryText (d : Dialect) (s : Schema) (filters : List String)
    (sort : Option RowOrder) :
    items d 0 (tokens (s.queryText d filters sort)) =
      [Item.word "SELECT", Item.mark '*', Item.word "FROM"] ++ ([Item.name s.name] ++
        (conditionItems filters ++ orderItems sort)) := by
  have hhead : Complete d "SELECT * FROM " [.word "SELECT", .mark '*', .word "FROM"] := by
    cases d <;> exact fun _ _ => rfl
  have horder : (Schema.ordering sort).toList.head?.all isDelimiter = true := by
    cases sort with
    | none => rfl
    | some o => simp only [Schema.ordering, String.toList_append]; rfl
  have hcondition : (Schema.conditions d filters ++ Schema.ordering sort).toList.head?.all
      isDelimiter = true := by
    unfold Schema.conditions
    split
    · rw [String.empty_append]
      exact horder
    · simp only [String.toList_append]
      rfl
  have hall := hhead.append ((reads_identifier d 0 s.name).append
    ((reads_conditions d filters).append (reads_ordering d _ sort) horder) hcondition)
  have htext : s.queryText d filters sort = "SELECT * FROM " ++ (identifier s.name ++
      (Schema.conditions d filters ++ Schema.ordering sort)) := by
    unfold Schema.queryText
    rw [String.append_assoc, String.append_assoc]
  rw [htext, hall.items_eq]

theorem order?_orderItems (sort : Option RowOrder) :
    Query.order? (orderItems sort) = some (sort.map fun o => (o.field, o.direction)) := by
  cases sort with
  | none => rfl
  | some o =>
      have hdirection : Query.direction? (.word o.direction.keyword) = some o.direction := by
        cases o.direction <;> rfl
      simp [orderItems, Query.order?, hdirection]

/-- Conditions are read back one by one, up to the words of an order or the end
of the query. -/
theorem conditions?_intercalate (first : String × Nat) (more : List (String × Nat))
    (sort : Option RowOrder) :
    Query.conditions? ([Item.word "AND"].intercalate ((first :: more).map assignmentItems) ++
        orderItems sort) = some (first :: more, orderItems sort) := by
  induction more generalizing first with
  | nil =>
      cases sort with
      | none => rfl
      | some o => simp [assignmentItems, orderItems, Query.conditions?]
  | cons second more ih =>
      rw [List.map_cons, List.map_cons, List.intercalate_cons_cons, ← List.map_cons]
      simp only [assignmentItems, List.cons_append, List.nil_append, Query.conditions?]
      rw [ih]
      rfl

/-- A query is read back as the table, the filters in their order with the
numbers of their parameters, and the order of the rows. -/
theorem read?_queryText (d : Dialect) (s : Schema) (filters : List String)
    (sort : Option RowOrder) :
    Query.read? d (s.queryText d filters sort) =
      some ⟨s.name, filters.zipIdx 1, sort.map fun o => (o.field, o.direction)⟩ := by
  have hread : ∀ rest, Query.ofItems? ([Item.word "SELECT", Item.mark '*', Item.word "FROM"] ++
      ([Item.name s.name] ++ rest)) = (Query.filter? rest).bind fun filtered =>
        (Query.order? filtered.2).bind fun order => some ⟨s.name, filtered.1, order⟩ :=
    fun _ => rfl
  have hfilter : Query.filter? (conditionItems filters ++ orderItems sort) =
      some (filters.zipIdx 1, orderItems sort) := by
    unfold conditionItems
    cases filters with
    | nil => cases sort <;> rfl
    | cons first more => exact conditions?_intercalate (first, 1) (more.zipIdx 2) sort
  rw [Query.read?, items_queryText, hread, hfilter]
  simp only [Option.bind_some]
  rw [order?_orderItems]
  rfl

/-! ## What queries are made of -/

/-- Whether a text is put together from some parts and from quoted names. -/
def MadeOf (parts names : List String) (text : String) : Prop :=
  ∃ pieces : List String, text = String.join pieces ∧
    ∀ piece ∈ pieces, piece ∈ parts ∨ ∃ name ∈ names, piece = identifier name

def queryParts (d : Dialect) (count : Nat) : List String :=
  ["SELECT * FROM ", " WHERE ", "=", " AND ", " ORDER BY ", " ", "ASC", "DESC"] ++
    (List.range' 1 count).map d.placeholder

section

variable {parts names : List String} {text text' : String}

theorem MadeOf.append (h : MadeOf parts names text) (h' : MadeOf parts names text') :
    MadeOf parts names (text ++ text') := by
  obtain ⟨pieces, rfl, hpieces⟩ := h
  obtain ⟨pieces', rfl, hpieces'⟩ := h'
  exact ⟨pieces ++ pieces', String.join_append.symm,
    List.forall_mem_append.mpr ⟨hpieces, hpieces'⟩⟩

theorem madeOf_empty : MadeOf parts names "" := ⟨[], rfl, by simp⟩

theorem madeOf_part (h : text ∈ parts) : MadeOf parts names text :=
  ⟨[text], by simp, by simpa using .inl h⟩

theorem madeOf_identifier {name : String} (h : name ∈ names) :
    MadeOf parts names (identifier name) :=
  ⟨[identifier name], by simp, by simpa using .inr ⟨name, h, rfl⟩⟩

theorem madeOf_intercalate {separator : String} {texts : List String} (h : separator ∈ parts)
    (htexts : ∀ text ∈ texts, MadeOf parts names text) :
    MadeOf parts names (String.intercalate separator texts) := by
  induction texts with
  | nil => exact madeOf_empty
  | cons first rest ih =>
      obtain ⟨hfirst, hrest⟩ := List.forall_mem_cons.mp htexts
      cases rest with
      | nil => simpa using hfirst
      | cons second rest =>
          rw [String.intercalate_cons_cons]
          exact (hfirst.append (madeOf_part h)).append (ih hrest)

end

/-- A query is made of fixed parts, placeholders and quoted names of the schema,
if its columns are columns of the schema. -/
theorem madeOf_queryText (d : Dialect) (s : Schema) {filters : List String}
    {sort : Option RowOrder} (h : ∀ c ∈ Schema.namedColumns filters sort, c ∈ s.columns) :
    MadeOf (queryParts d filters.length) (s.name :: s.columns)
      (s.queryText d filters sort) := by
  obtain ⟨hfilters, hsort⟩ := List.forall_mem_append.mp h
  have hname : ∀ c ∈ s.columns, c ∈ s.name :: s.columns := fun c => List.mem_cons_of_mem _
  have hplaceholder : ∀ i ∈ List.range' 1 filters.length,
      d.placeholder i ∈ queryParts d filters.length := by
    intro i hi
    exact List.mem_append_right _ (List.mem_map_of_mem hi)
  -- The three parts of the text: the table, the conditions, the order.
  refine (MadeOf.append ?_ ?_).append ?_
  · exact (madeOf_part (by simp [queryParts])).append (madeOf_identifier List.mem_cons_self)
  · unfold Schema.conditions
    split
    · exact madeOf_empty
    · refine (madeOf_part (by simp [queryParts])).append
        (madeOf_intercalate (by simp [queryParts]) ?_)
      rw [assignments_eq]
      intro text htext
      obtain ⟨p, hp, rfl⟩ := List.mem_map.mp htext
      have hp' : p.1 ∈ filters ∧ p.2 ∈ List.range' 1 filters.length := by
        rw [List.zipIdx_eq_zip_range'] at hp
        exact ⟨(List.of_mem_zip hp).1, (List.of_mem_zip hp).2⟩
      exact ((madeOf_identifier (hname _ (hfilters _ hp'.1))).append
        (madeOf_part (by simp [queryParts]))).append (madeOf_part (hplaceholder _ hp'.2))
  · cases sort with
    | none => exact madeOf_empty
    | some o =>
        have hfield : o.field ∈ s.columns := hsort o.field (by simp)
        have hkeyword : o.direction.keyword ∈ queryParts d filters.length := by
          cases o.direction <;> simp [queryParts, Direction.keyword]
        exact (((madeOf_part (by simp [queryParts])).append
          (madeOf_identifier (hname _ hfield))).append (madeOf_part (by simp [queryParts]))).append
            (madeOf_part hkeyword)

end Sql

/-! ## Columns are words -/

/-- A word has no character that is not part of words, which is decided for each
such character on its own. -/
theorem Text.not_mem_of_isWord {s : String} {c : Char} (h : IsWord s)
    (hc : (c.toNat < 128 && !Scan.isWordPart c.toUInt8) = true) : c ∉ s.toList := by
  intro hmem
  obtain ⟨hascii, hpart⟩ : c.toNat < 128 ∧ Scan.isWordPart c.toUInt8 = false := by simpa using hc
  have hbyte : c.toUInt8 ∈ bytes s := by
    rw [bytes_eq_flatMap, List.mem_flatMap]
    exact ⟨c, hmem, by rw [encode_of_ascii hascii]; exact List.mem_singleton_self _⟩
  rw [h _ hbyte] at hpart
  cases hpart

namespace Scan

theorem word_of_mem {p : Position} {skip : Nat} {bs : List UInt8} {t : Token}
    (h : t ∈ tokensFrom p skip bs) (hkind : t.kind.isWord = true) : Word (Text.bytes t.text) := by
  obtain ⟨b, rest, hread⟩ := exists_read_of_mem h
  obtain ⟨hstart, htext⟩ := eq_ofBytes_of_read hread hkind
  have hword := (longest_word hstart rest).whole
  rw [htext, Text.bytes_ofBytes fun x hx => lt_of_isWordPart (hword.2 x hx)]
  exact hword

end Scan

namespace Grammar

theorem Listed.exists_item {α : Type} {item : Phrase α} {ts : List Token} {as : List α}
    (h : Listed item ts as) {a : α} (ha : a ∈ as) : ∃ us, us ⊆ ts ∧ item us a := by
  induction h with
  | close => cases ha
  | @cons commas us vs b bs _ hitem _ ih =>
      rcases List.mem_cons.mp ha with rfl | ha
      · exact ⟨us, by simp, hitem⟩
      · obtain ⟨us', hsubset, hitem'⟩ := ih ha
        refine ⟨us', fun t ht => ?_, hitem'⟩
        exact List.mem_append_right _ (List.mem_append_right _ (hsubset ht))

end Grammar

namespace Parser

variable {source : List UInt8}

theorem block_fields {t : Token} {ts later : Tokens} {tree : Tree}
    (h : block source t ts = .ok (tree, later)) :
    ∀ s ∈ tree.schemas, ∀ f ∈ s.fields,
      ∃ u ∈ ts.items, u.kind.isWord = true ∧ u.text = f.name := by
  rcases block_cases h with ⟨used, hitems, hblock⟩ | ⟨-, a, rfl, -⟩ | rfl
  · cases hblock with
    | data _ _ _ hfields =>
        rintro s hs f hf
        obtain rfl := List.mem_singleton.mp hs
        obtain ⟨us, hsubset, hfield⟩ := hfields.exists_item hf
        cases hfield with
        | @field name _ _ _ _ _ _ hname =>
            refine ⟨name, ?_, hname, rfl⟩
            rw [hitems]
            exact List.mem_append_left _ (List.mem_cons_of_mem _
              (List.mem_cons_of_mem _ (hsubset List.mem_cons_self)))
    | _ => simp
  · simp [ofAction]
  · simp

theorem Reads.field_words {m : Nat} {tree : Tree} {last : Tokens}
    (h : Reads source (Tokens.behind source m) tree last) :
    ∀ s ∈ tree.schemas, ∀ f ∈ s.fields, Scan.Word (Text.bytes f.name) := by
  refine Reads.forall_blocks
    (P := fun tree => ∀ s ∈ tree.schemas, ∀ f ∈ s.fields, Scan.Word (Text.bytes f.name))
    (by simp) (fun ht hu => List.forall_mem_append.mpr ⟨ht, hu⟩) ?_ h
  intro n t items tree later hitems hblock s hs f hf
  obtain ⟨u, hu, hkind, htext⟩ := block_fields hblock s hs f hf
  have hmem : u ∈ (Tokens.behind source n).items := by
    rw [hitems]
    exact List.mem_cons_of_mem _ hu
  rw [← htext]
  exact Scan.word_of_mem hmem hkind

/-- The columns of a schema that was read are words. -/
theorem columns_words {source : String} {t : Tree} (h : Tree.ofSource source = .ok t) {s : Schema}
    (hs : s ∈ t.schemas) : ∀ c ∈ s.columns, Scan.Word (Text.bytes c) := by
  obtain ⟨last, hreads, -⟩ := ofBytes_eq_ok_iff.mp h
  rw [← Tokens.behind_zero] at hreads
  intro c hc
  rcases List.mem_cons.mp hc with rfl | hc
  · refine ⟨⟨_, _, rfl, by decide⟩, ?_⟩
    exact List.all_eq_true.mp (by decide : (Text.bytes keyColumn).all Scan.isWordPart = true)
  · obtain ⟨f, hf, rfl⟩ := List.mem_map.mp hc
    exact hreads.field_words s hs f (List.mem_filter.mp hf).1

end Parser

namespace Sql

/-- A word has no quotes to double, so between quotes it stands as it is. -/
theorem identifier_of_word {c : String} (h : Scan.Word (Text.bytes c)) :
    identifier c = "\"" ++ c ++ "\"" := by
  have hquote : '"' ∉ c.toList := Text.not_mem_of_isWord h.2 rfl
  have hdouble : doubleQuotes c.toList = c.toList := by
    have hchar : ∀ a ∈ c.toList, (if a = '"' then ['"', '"'] else [a]) = [a] := by
      intro a ha
      rw [if_neg]
      rintro rfl
      exact hquote ha
    rw [doubleQuotes, List.flatMap_congr hchar, List.flatMap_singleton']
  rw [identifier, hdouble, String.ofList_append, String.ofList_cons, String.ofList_toList]
  rfl

end Sql

/-! ## Templates of generated code -/

namespace Server

open Code

def template? : Piece → Option String
  | .line text =>
    match text.toList.splitOn '`' with
    | [_, inside, _] => some (String.ofList inside)
    | _ => none
  | _ => none

/-- A template with the expressions between its braces replaced by their
values. -/
def fillFrom (value : String → String) (expression : Option (List Char)) :
    List Char → List Char
  | [] => []
  | c :: rest =>
    match expression with
    | some read =>
      if c = '}' then (value (String.ofList read)).toList ++ fillFrom value none rest
      else fillFrom value (some (read ++ [c])) rest
    | none =>
      match rest with
      | '{' :: later => if c = '$' then fillFrom value (some []) later
        else c :: fillFrom value none ('{' :: later)
      | rest => c :: fillFrom value none rest

def fill (value : String → String) (template : String) : String :=
  String.ofList (fillFrom value none template.toList)

/-- The values of the expressions in the templates of a list builder: for a
column, with the number of the values so far and the direction. -/
def builderValue (column : String) (count : Nat) (direction expression : String) : String :=
  if expression = "column" ∨ expression = "sort.field" then column
  else if expression = "values.length" then toString count
  else if expression = "sort.direction === \"desc\" ? \"DESC\" : \"ASC\"" then
    if direction = "desc" then "DESC" else "ASC"
  else "undefined"

theorem template?_of_not_mem {text : String} (h : '`' ∉ text.toList) :
    template? (.line text) = none := by
  have hsplit : (['`'].intercalate [text.toList]).splitOn '`' = [text.toList] :=
    List.splitOn_intercalate '`' (by simpa using h) (by simp)
  rw [List.intercalate_singleton] at hsplit
  rw [template?, hsplit]

/-- Escaping brings in no backquote, so a quoted text ends a template only if it
has one itself. -/
theorem mem_of_backquote_mem_escape {cs : List Char} (h : '`' ∈ Text.escape cs) : '`' ∈ cs := by
  have hhex : ∀ n, Text.hexDigit n ≠ '`' := by
    intro n
    have hdigit : ∀ m < 16, (Nat.toDigits 16 m).headD '0' ≠ '`' := by decide
    exact hdigit _ (Nat.mod_lt n (by decide))
  obtain ⟨c, hc, hmem⟩ := List.mem_flatMap.mp h
  have hchar : c = '`' := by
    revert hmem
    fun_cases Text.escapeChar c with
    | case8 => simp [(hhex _).symm]
    | case9 => exact fun hmem => (List.mem_singleton.mp hmem).symm
    | _ => exact fun hmem => absurd hmem (by decide)
  rw [← hchar]
  exact hc

theorem templates_block (before behind : String) (pieces : List Piece) :
    (block before pieces behind).filterMap template? = pieces.filterMap template? := by
  have hclosing : [Piece.closing behind].filterMap template? = [] := rfl
  rw [block, List.cons_append, List.filterMap_cons_none rfl, List.filterMap_append, hclosing,
    List.append_nil]

/-- The templates of a list builder: what it says of a filter that is no column,
the condition of a filter, what it says of an order by no column, and the
order. -/
theorem templates_listBuilder (d : Dialect) {schema : String} (h : '`' ∉ schema.toList) :
    (listBuilder d schema).filterMap template? =
      ["Unknown filter column: ${column}", "\"${column}\"=" ++ lastPlaceholder d,
        "Unknown sort column: ${sort.field}",
        " ORDER BY \"${sort.field}\" " ++
          r#"${sort.direction === "desc" ? "DESC" : "ASC"}"#] := by
  have hidentifier : '`' ∉ (Sql.identifier schema).toList := by
    have hdouble : '`' ∉ Sql.doubleQuotes schema.toList := by
      intro hmem
      obtain ⟨c, hc, hmem⟩ := List.mem_flatMap.mp hmem
      split_ifs at hmem
      · exact absurd hmem (by decide)
      · rw [← List.mem_singleton.mp hmem] at hc
        exact h hc
    simpa [Sql.identifier] using hdouble
  -- The one line that holds a name of the schema; a word has no backquote to make it a template.
  have hselect : template? (.line ("let sql = " ++ string ("SELECT * FROM " ++
      Sql.identifier schema) ++ ";")) = none := by
    have hstring : '`' ∉ (string ("SELECT * FROM " ++ Sql.identifier schema)).toList := by
      intro hmem
      have hescape : '`' ∈ Text.escape ("SELECT * FROM " ++ Sql.identifier schema).toList := by
        simpa [string, Text.quoted] using hmem
      have htext := mem_of_backquote_mem_escape hescape
      rw [String.toList_append, List.mem_append] at htext
      exact htext.elim (by decide) hidentifier
    apply template?_of_not_mem
    simp only [String.toList_append, List.mem_append, not_or]
    exact ⟨⟨by decide, hstring⟩, by decide⟩
  have hcondition : template? (.line ("clauses.push(`\"${column}\"=" ++ lastPlaceholder d ++
      "`);")) = some ("\"${column}\"=" ++ lastPlaceholder d) := by
    cases d <;> decide +kernel
  have hfilter : (columnGuard schema "column" "filter").filterMap template? =
      ["Unknown filter column: ${column}"] := by
    rw [columnGuard, templates_block]
    decide +kernel
  have hsort : (columnGuard schema "sort.field" "sort").filterMap template? =
      ["Unknown sort column: ${sort.field}"] := by
    rw [columnGuard, templates_block]
    decide +kernel
  have horder : [Piece.line ("sql += ` ORDER BY \"${sort.field}\" " ++
      r#"${sort.direction === "desc" ? "DESC" : "ASC"}`;"#)].filterMap template? =
      [" ORDER BY \"${sort.field}\" " ++
        r#"${sort.direction === "desc" ? "DESC" : "ASC"}"#] := by
    decide +kernel
  have hothers : (["const clauses = [];", "const values = [];", "values.push(value);",
      "if (clauses.length > 0) sql += \" WHERE \" + clauses.join(\" AND \");",
      "return { sql, values };"].all fun text => (template? (.line text)).isNone) = true := by
    decide +kernel
  simp only [List.all_cons, List.all_nil, Bool.and_true, Bool.and_eq_true,
    Option.isNone_iff_eq_none] at hothers
  simp only [listBuilder, filterCode, sortCode, templates_block, List.filterMap_append, hfilter,
    hsort, horder, List.filterMap_cons_none hselect, List.filterMap_cons_some hcondition,
    List.filterMap_cons_none hothers.1, List.filterMap_cons_none hothers.2.1,
    List.filterMap_cons_none hothers.2.2.1, List.filterMap_cons_none hothers.2.2.2.1,
    List.filterMap_cons_none hothers.2.2.2.2, List.filterMap_nil, List.nil_append,
    List.append_nil, List.cons_append]

/-- The condition of a filter, filled with its column and its number, is the one
that a query has for it. -/
theorem fill_condition (d : Dialect) (column : String) (count : Nat) (direction : String) :
    fill (builderValue column count direction) ("\"${column}\"=" ++ lastPlaceholder d) =
      "\"" ++ column ++ "\"" ++ "=" ++ d.placeholder count := by
  apply String.toList_inj.mp
  cases d with
  | sqlite =>
      simp [fill, lastPlaceholder, fillFrom, builderValue, Dialect.placeholder]
  | postgres =>
      simp [fill, lastPlaceholder, fillFrom, builderValue, Sql.placeholder_postgres]

/-- The order, filled with its column and its direction, is the one that a query
ends with. -/
theorem fill_order (column : String) (count : Nat) (direction : Direction) :
    fill (builderValue column count direction.spelling) (" ORDER BY \"${sort.field}\" " ++
        r#"${sort.direction === "desc" ? "DESC" : "ASC"}"#) =
      " ORDER BY " ++ ("\"" ++ column ++ "\"") ++ " " ++ direction.keyword := by
  apply String.toList_inj.mp
  cases direction with
  | ascending => simp [fill, fillFrom, builderValue, Direction.keyword, Direction.spelling]
  | descending => simp [fill, fillFrom, builderValue, Direction.keyword, Direction.spelling]

end Server

/-- A list query is made if and only if its filters and the field of its order
are columns, and else the first that is none is named. The engine reads back the
table, the filters with their numbers and the order, and nothing but columns
comes from the caller. For a schema that was read from a source the templates of
generated code quote the columns alike. -/
theorem listQuery_names_columns (d : Dialect) (s : Schema) (filters : List String)
    (sort : Option String) :
    let known := "id" :: (s.fields.map Field.name).filter (· ≠ "id")
    let order := sort.map RowOrder.ofText
    let named := filters ++ (order.map RowOrder.field).toList
    ((∃ text, s.listQuery d filters order = .ok text) ↔ ∀ c ∈ named, c ∈ known) ∧
    (∀ e, s.listQuery d filters order = .error e ↔ ∃ before c after,
      named = before ++ c :: after ∧ (∀ b ∈ before, b ∈ known) ∧ c ∉ known ∧
        e = .unknownColumn s.name c) ∧
    (∀ text, s.listQuery d filters order = .ok text →
      Sql.Query.read? d text =
        some ⟨s.name, filters.zipIdx 1, order.map fun o => (o.field, o.direction)⟩ ∧
      Sql.MadeOf (Sql.queryParts d filters.length) (s.name :: known) text) ∧
    (∀ text, sort = some text →
      (':' ∉ text.toList → order = some ⟨text, .ascending⟩) ∧
      ∀ field word, text = field ++ ":" ++ word → ':' ∉ word.toList → order = some (
        if word.map Char.toLower = "asc" then ⟨field, .ascending⟩
        else if word.map Char.toLower = "desc" then ⟨field, .descending⟩
        else ⟨text, .ascending⟩)) ∧
    ∀ source t, Tree.ofSource source = .ok t → s ∈ t.schemas →
      ∃ unknownFilter condition unknownSort ordering,
        (Server.listBuilder d s.name).filterMap Server.template? =
          [unknownFilter, condition, unknownSort, ordering] ∧
        ∀ c ∈ known, Scan.Word (Text.bytes c) ∧ "\"" ++ c ++ "\"" = Sql.identifier c ∧
          ∀ (count : Nat) (direction : Direction),
            Server.fill (Server.builderValue c count direction.spelling) condition =
              Sql.identifier c ++ "=" ++ d.placeholder count ∧
            Server.fill (Server.builderValue c count direction.spelling) ordering =
              " ORDER BY " ++ Sql.identifier c ++ " " ++ direction.keyword := by
  have hknown : "id" :: (s.fields.map Field.name).filter (· ≠ "id") = s.columns := by
    rw [List.filter_map]
    rfl
  simp only [hknown]
  refine ⟨?_, ?_, ?_, ?_, ?_⟩
  · exact (s.reports_listQuery d filters _).ok_iff.trans Schema.columnErrors_eq_nil_iff
  · intro e
    exact ((s.reports_listQuery d filters _).error_iff e).trans Schema.head?_columnErrors_iff
  · intro text h
    obtain ⟨rfl, hcolumns⟩ := Schema.listQuery_eq_ok h
    exact ⟨Sql.read?_queryText d s filters _, Sql.madeOf_queryText d s hcolumns⟩
  · rintro text rfl
    refine ⟨fun h => congrArg some (RowOrder.ofText_of_not_mem h), ?_⟩
    rintro field word rfl hword
    rw [Option.map_some, RowOrder.ofText_append hword]
  · intro source t hsource hs
    -- Names read from a source are words, so writing them between quotation marks escapes nothing.
    have hname : '`' ∉ s.name.toList :=
      Text.not_mem_of_isWord (Parser.wellFormed_of_ofSource hsource s hs).name rfl
    refine ⟨_, _, _, _, Server.templates_listBuilder d hname, ?_⟩
    intro c hc
    have hword := Parser.columns_words hsource hs c hc
    rw [Sql.identifier_of_word hword]
    exact ⟨hword, rfl, fun count direction =>
      ⟨Server.fill_condition d c count _, Server.fill_order c count direction⟩⟩

example : Schema.listQuery .postgres ⟨"Task", [⟨"a\" --", "Int", false, []⟩], 1⟩ ["id", "a\" --"]
    (some (RowOrder.ofText "id:Desc")) =
    .ok "SELECT * FROM \"Task\" WHERE \"id\"=$1 AND \"a\"\" --\"=$2 ORDER BY \"id\" DESC" := by
  decide +kernel

end BlockLang
