import BlockLang.Tree.Parser

/-! # The grammar of blocks

What a block is, rule by rule: the tokens that derive from a rule, with what they denote. The rules
say nothing of how tokens are read. In the comments, `x*` stands for any number of `x` and `[x]` for
one or none.
-/

namespace BlockLang

namespace Grammar

abbrev Phrase (α : Type) := List Token → α → Prop

def IsValue (t : Token) : Prop := t.kind.isWord = true ∨ t.kind = .string ∨ t.kind = .number

def IsLabel (t : Token) : Prop := t.kind.isWord = true ∨ t.kind = .string

inductive Many {α : Type} (item : Phrase α) : Phrase (List α)
  | nil : Many item [] []
  | cons {ts us : List Token} {a : α} {as : List α} (hitem : item ts a)
      (hrest : Many item us as) : Many item (ts ++ us) (a :: as)

/-- `(","* item)* ","* "}"`. Commas between items may be left out or doubled,
and the closing brace is a part of the list. -/
inductive Listed {α : Type} (item : Phrase α) : Phrase (List α)
  | close {commas : List Token} {brace : Token} (hcommas : ∀ t ∈ commas, t.kind = .mark .comma)
      (hbrace : brace.kind = .mark .braceClose) : Listed item (commas ++ [brace]) []
  | cons {commas ts us : List Token} {a : α} {as : List α}
      (hcommas : ∀ t ∈ commas, t.kind = .mark .comma) (hitem : item ts a)
      (hrest : Listed item us as) : Listed item (commas ++ (ts ++ us)) (a :: as)

/-! ## Schemas -/

/-- What stands between the parentheses of a field: a separator, a value without
a key, or a value under a key. -/
inductive Item where
  | separator
  | variant (text : String)
  | keyed (key value : String)

/-- `item := "," | "|" | value | word ":" value`. Separators may stand anywhere,
and there may be none between two values. -/
inductive IsItem : Phrase Item
  | separator {t : Token} (h : t.kind = .mark .comma ∨ t.kind = .mark .pipe) :
      IsItem [t] .separator
  | variant {t : Token} (h : IsValue t) : IsItem [t] (.variant t.text)
  | keyed {key colon value : Token} (hkey : key.kind.isWord = true)
      (hcolon : colon.kind = .mark .colon) (hvalue : IsValue value) :
      IsItem [key, colon, value] (.keyed key.text value.text)

def Item.set (keyed : Arguments) : Item → Arguments
  | .keyed key value => keyed.insert key (Parser.argumentOf value)
  | .separator | .variant _ => keyed

def Item.variant? : Item → Option String
  | .variant text => some text
  | .separator | .keyed _ _ => none

/-- The arguments that some items denote: one for each key, with the value that
stands last, and behind them the list of the values without a key. -/
def argumentsOf (items : List Item) : Arguments :=
  let keyed := items.foldl Item.set []
  match items.filterMap Item.variant? with
  | [] => keyed
  | variants => keyed.insert enumKey (.list variants)

/-- `arguments := ["(" item* ")"]` -/
inductive IsArguments : Phrase Arguments
  | absent : IsArguments [] []
  | present {opening closing : Token} {ts : List Token} {items : List Item}
      (hopening : opening.kind = .mark .parenOpen) (hitems : Many IsItem ts items)
      (hclosing : closing.kind = .mark .parenClose) :
      IsArguments (opening :: (ts ++ [closing])) (argumentsOf items)

inductive IsOptional : Phrase Bool
  | absent : IsOptional [] false
  | present {t : Token} (h : t.kind = .mark .question) : IsOptional [t] true

/-- `field := word ":" word arguments optional` -/
inductive IsField : Phrase Field
  | field {name colon typeName : Token} {ts us : List Token} {arguments : Arguments}
      {optional : Bool} (hname : name.kind.isWord = true) (hcolon : colon.kind = .mark .colon)
      (htypeName : typeName.kind.isWord = true) (harguments : IsArguments ts arguments)
      (hoptional : IsOptional us optional) :
      IsField (name :: colon :: typeName :: (ts ++ us))
        ⟨name.text, typeName.text, optional, arguments⟩

/-! ## Routes -/

/-- `step := word | "validate" "(" word ")"`, where the word `auth` is a step of
its own kind. -/
inductive IsStep : Phrase Step
  | auth {t : Token} (hword : t.kind.isWord = true) (htext : t.text = "auth") : IsStep [t] .auth
  | action {t : Token} (hword : t.kind.isWord = true) (htext : t.text ≠ "auth") :
      IsStep [t] (.action t.text)
  | validate {t opening schema closing : Token} (hword : t.kind.isWord = true)
      (htext : t.text = "validate") (hopening : opening.kind = .mark .parenOpen)
      (hschema : schema.kind.isWord = true) (hclosing : closing.kind = .mark .parenClose) :
      IsStep [t, opening, schema, closing] (.validate schema.text)

/-- `"," step`, where the step of a pipeline without brackets begins with no
verb. -/
inductive IsLaterStep (bracketed : Bool) : Phrase Step
  | step {comma : Token} {ts : List Token} {s : Step} (hcomma : comma.kind = .mark .comma)
      (hstep : IsStep ts s) (hverb : bracketed = false → ∀ t ∈ ts.head?, ∀ v, t.kind ≠ .verb v) :
      IsLaterStep bracketed (comma :: ts) s

def IsOptionalComma (ts : List Token) : Prop :=
  ts = [] ∨ ∃ comma, ts = [comma] ∧ comma.kind = .mark .comma

/-- `pipeline := step laterStep* | "[" step laterStep* [","] "]"` -/
inductive IsPipeline : Phrase (List Step)
  | plain {ts us : List Token} {s : Step} {steps : List Step} (hfirst : IsStep ts s)
      (hmore : Many (IsLaterStep false) us steps) : IsPipeline (ts ++ us) (s :: steps)
  | bracketed {opening closing : Token} {ts us commas : List Token} {s : Step} {steps : List Step}
      (hopening : opening.kind = .mark .bracketOpen) (hfirst : IsStep ts s)
      (hmore : Many (IsLaterStep true) us steps) (hcommas : IsOptionalComma commas)
      (hclosing : closing.kind = .mark .bracketClose) :
      IsPipeline (opening :: (ts ++ us) ++ (commas ++ [closing])) (s :: steps)

/-- `entry := verb string "=>" pipeline` -/
inductive IsRoute : Phrase Route
  | route {verb path arrow : Token} {v : Verb} {ts : List Token} {pipeline : List Step}
      (hverb : verb.kind = .verb v) (hpath : path.kind = .string)
      (harrow : arrow.kind = .mark .arrow) (hpipeline : IsPipeline ts pipeline) :
      IsRoute (verb :: path :: arrow :: ts) ⟨v, path.text, pipeline, verb.position.line⟩

/-! ## Migrations -/

def IsKeyword (text : String) (t : Token) : Prop := t.kind.isWord = true ∧ t.text = text

/-- `operation := "addColumn" string label word | "dropColumn" string label |
"createTable" string | "dropTable" string` -/
inductive IsOperation : Phrase Operation
  | addColumn {t table column typeName : Token} (ht : IsKeyword "addColumn" t)
      (htable : table.kind = .string) (hcolumn : IsLabel column)
      (htypeName : typeName.kind.isWord = true) :
      IsOperation [t, table, column, typeName] (.addColumn table.text column.text typeName.text)
  | dropColumn {t table column : Token} (ht : IsKeyword "dropColumn" t)
      (htable : table.kind = .string) (hcolumn : IsLabel column) :
      IsOperation [t, table, column] (.dropColumn table.text column.text)
  | createTable {t table : Token} (ht : IsKeyword "createTable" t)
      (htable : table.kind = .string) : IsOperation [t, table] (.createTable table.text)
  | dropTable {t table : Token} (ht : IsKeyword "dropTable" t) (htable : table.kind = .string) :
      IsOperation [t, table] (.dropTable table.text)

/-! ## Blocks -/

/-- `block := "data" word "{" (","* field)* ","* "}" | "route" [label] "{" (","*
entry)* ","* "}" | "migration" label "{" (","* operation)* ","* "}" | "import"
string` -/
inductive IsBlock : Phrase Tree
  | data {t name opening : Token} {ts : List Token} {fields : List Field}
      (ht : t.kind = .keyword .data) (hname : name.kind.isWord = true)
      (hopening : opening.kind = .mark .braceOpen) (hfields : Listed IsField ts fields) :
      IsBlock (t :: name :: opening :: ts) { schemas := [⟨name.text, fields, t.position.line⟩] }
  | route {t opening : Token} {labels ts : List Token} {routes : List Route}
      (ht : t.kind = .keyword .route)
      (hlabels : labels = [] ∨ ∃ label, labels = [label] ∧ IsLabel label)
      (hopening : opening.kind = .mark .braceOpen) (hroutes : Listed IsRoute ts routes) :
      IsBlock (t :: (labels ++ opening :: ts)) { routes }
  | migration {t version opening : Token} {ts : List Token} {operations : List Operation}
      (ht : t.kind = .keyword .migration) (hversion : IsLabel version)
      (hopening : opening.kind = .mark .braceOpen)
      (hoperations : Listed IsOperation ts operations) :
      IsBlock (t :: version :: opening :: ts)
        { migrations := [⟨version.text, operations, t.position.line⟩] }
  | importing {t path : Token} (ht : t.kind = .keyword .importing) (hpath : path.kind = .string) :
      IsBlock [t, path] { imports := [⟨path.text, t.position.line⟩] }

end Grammar

end BlockLang
