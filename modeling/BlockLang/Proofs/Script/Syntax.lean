import BlockLang.Code.Literal

/-! # The script language: texts and their trees

The part of the language of generated code in which validators are written: functions of one
parameter made of constants, properties set, conditions, throws and returns. A text is cut into
tokens, longest first, and the tokens are read by recursive descent. What is outside the part is
refused, never read as something else.
-/

namespace BlockLang.Script

/-! ## Tokens -/

inductive Keyword where
  | exporting
  | function
  | constant
  | condition
  | otherwise
  | throwing
  | returning
  | construct
  | typeOf
  | null
  deriving DecidableEq, Repr

inductive Mark where
  | braceOpen
  | braceClose
  | parenOpen
  | parenClose
  | bracketOpen
  | bracketClose
  | semicolon
  | comma
  | point
  | assign
  | strictEqual
  | strictUnequal
  | less
  | greater
  | or
  | not
  | minus
  deriving DecidableEq, Repr

inductive Token where
  | keyword (keyword : Keyword)
  | name (text : String)
  | string (value : String)
  | number (value : Reading)
  | mark (mark : Mark)
  /-- What is no token, or none that the trees are made with. -/
  | invalid
  deriving DecidableEq, Repr

/-- The blanks between tokens, which are also those around a numeral in a
text. -/
def isBlank (c : Char) : Bool :=
  let n := c.toNat
  (0x09 ≤ n && n ≤ 0x0D) || n == 0x20 || n == 0xA0 || n == 0x1680 ||
    (0x2000 ≤ n && n ≤ 0x200A) || n == 0x2028 || n == 0x2029 || n == 0x202F || n == 0x205F ||
    n == 0x3000 || n == 0xFEFF

def isNameStart (c : Char) : Bool := c.isAlpha || c == '_' || c == '$'

def isNamePart (c : Char) : Bool := c.isAlphanum || c == '_' || c == '$'

def keywords : List (String × Keyword) :=
  [("export", .exporting), ("function", .function), ("const", .constant), ("if", .condition),
   ("else", .otherwise), ("throw", .throwing), ("return", .returning), ("new", .construct),
   ("typeof", .typeOf), ("null", .null)]

/-- A word as a token; the reserved words without a use here are refused. -/
def Token.ofWord (word : String) : Token :=
  match keywords.lookup word with
  | some known => .keyword known
  | none => if Code.isReserved word then .invalid else .name word

/-- The punctuators of the language, but for those that begin with a slash, the
longer ones before the shorter ones. -/
def punctuators : List (List Char × Token) :=
  [(['>', '>', '>', '='], .invalid),
   (['.', '.', '.'], .invalid), (['=', '=', '='], .mark .strictEqual),
   (['!', '=', '='], .mark .strictUnequal), (['*', '*', '='], .invalid),
   (['<', '<', '='], .invalid), (['>', '>', '='], .invalid), (['>', '>', '>'], .invalid),
   (['&', '&', '='], .invalid), (['|', '|', '='], .invalid), (['?', '?', '='], .invalid),
   (['=', '>'], .invalid), (['=', '='], .invalid), (['!', '='], .invalid), (['<', '='], .invalid),
   (['>', '='], .invalid), (['&', '&'], .invalid), (['|', '|'], .mark .or),
   (['?', '?'], .invalid), (['?', '.'], .invalid), (['+', '+'], .invalid), (['-', '-'], .invalid),
   (['+', '='], .invalid), (['-', '='], .invalid), (['*', '='], .invalid), (['%', '='], .invalid),
   (['&', '='], .invalid), (['|', '='], .invalid), (['^', '='], .invalid), (['<', '<'], .invalid),
   (['>', '>'], .invalid), (['*', '*'], .invalid),
   (['{'], .mark .braceOpen), (['}'], .mark .braceClose), (['('], .mark .parenOpen),
   ([')'], .mark .parenClose), (['['], .mark .bracketOpen), ([']'], .mark .bracketClose),
   ([';'], .mark .semicolon), ([','], .mark .comma), (['.'], .mark .point), (['='], .mark .assign),
   (['<'], .mark .less), (['>'], .mark .greater), (['!'], .mark .not), (['-'], .mark .minus),
   (['+'], .invalid), (['*'], .invalid), (['%'], .invalid), (['&'], .invalid), (['|'], .invalid),
   (['^'], .invalid), (['~'], .invalid), (['?'], .invalid), ([':'], .invalid)]

def escaped? (c : Char) : Option Char :=
  if c = '"' ∨ c = '\\' then some c
  else if c = 'n' then some '\n'
  else if c = 'r' then some '\r'
  else if c = 't' then some '\t'
  else if c = 'b' then some '\x08'
  else if c = 'v' then some '\x0b'
  else if c = 'f' then some '\x0c'
  else none

def digit? (base : Nat) (c : Char) : Option Nat :=
  let value :=
    if c.isDigit then some (c.toNat - '0'.toNat)
    else if 'a' ≤ c ∧ c ≤ 'f' then some (c.toNat - 'a'.toNat + 10)
    else if 'A' ≤ c ∧ c ≤ 'F' then some (c.toNat - 'A'.toNat + 10)
    else none
  value.filter (· < base)

def digits? (base : Nat) (cs : List Char) : Option Nat :=
  cs.foldlM (fun n c => (digit? base c).map (base * n + ·)) 0

/-- The character with four hexadecimal digits as its code; halves of surrogate
pairs are refused. -/
def unicode? (cs : List Char) : Option Char := do
  let code ← digits? 16 cs
  if code.isValidChar then some (Char.ofNat code) else none

/-- The characters of a string literal behind its opening quote, and how many
characters it takes up to and with its closing quote. -/
def literal? : List Char → Option (List Char × Nat)
  | [] => none
  | '\\' :: 'u' :: a :: b :: c :: d :: rest => do
    let first ← unicode? [a, b, c, d]
    let (value, size) ← literal? rest
    return (first :: value, size + 6)
  | '\\' :: c :: rest => do
    let first ← escaped? c
    let (value, size) ← literal? rest
    return (first :: value, size + 2)
  | c :: rest =>
    if c = '"' then some ([], 1)
    else if c = '\n' ∨ c = '\r' ∨ c = '\\' then none
    else do
      let (value, size) ← literal? rest
      return (c :: value, size + 1)

/-- A number literal. A zero in front of other digits is refused. -/
def numeral (c : Char) (rest : List Char) : Token :=
  if c = '0' ∧ rest.head?.any Char.isDigit then .invalid
  else match Decimal.readDigits? false (c :: rest) with
    | some value => .number value
    | none => .invalid

def readToken (c : Char) (rest : List Char) : Token × Nat :=
  if isNameStart c then
    let part := rest.takeWhile isNamePart
    (.ofWord (String.ofList (c :: part)), part.length)
  else if c.isDigit then
    let part := rest.takeWhile fun d => isNamePart d || d == '.'
    (numeral c part, part.length)
  else if c = '"' then
    match literal? rest with
    | some (value, size) => (.string (String.ofList value), size)
    | none => (.invalid, 0)
  else match punctuators.find? (·.1.isPrefixOf (c :: rest)) with
    | some (text, token) => (token, text.length - 1)
    | none => (.invalid, 0)

/-- The tokens of characters of which the first `skip` belong to a token that
was read before. -/
def tokensFrom : Nat → List Char → List Token
  | _, [] => []
  | skip + 1, _ :: rest => tokensFrom skip rest
  | 0, c :: rest =>
    if isBlank c then tokensFrom 0 rest
    else
      let (token, size) := readToken c rest
      token :: tokensFrom size rest

def tokens (text : String) : List Token := tokensFrom 0 text.toList

/-! ## Trees -/

inductive Operator where
  | or
  | strictEqual
  | strictUnequal
  | less
  | greater
  deriving DecidableEq, Repr

inductive Sign where
  | not
  | minus
  | typeOf
  deriving DecidableEq, Repr

inductive Expr where
  | null
  | name (text : String)
  | string (value : String)
  | number (value : Reading)
  | array (items : List Expr)
  /-- An object without properties. -/
  | object
  | signed (sign : Sign) (operand : Expr)
  | binary (operator : Operator) (left right : Expr)
  | member (object : Expr) (name : String)
  | index (object key : Expr)
  | call (callee : Expr) (arguments : List Expr)
  | construct (name : String) (arguments : List Expr)
  deriving Repr

inductive Stmt where
  | constant (name : String) (value : Expr)
  /-- A property of a named object set to a value. -/
  | store (object : String) (key value : Expr)
  | throwing (value : Expr)
  | returning (value : Expr)
  | block (body : List Stmt)
  | condition (test : Expr) (yes no : Stmt)
  deriving Repr

structure Function where
  name : String
  parameter : String
  body : List Stmt
  deriving Repr

/-! ## Reading trees

The functions below call each other, each with less fuel. Between two tokens that are used up there
are fewer calls than `Function.read?` provides for.
-/

def comparison? : Mark → Option Operator
  | .strictEqual => some .strictEqual
  | .strictUnequal => some .strictUnequal
  | .less => some .less
  | .greater => some .greater
  | _ => none

def sign? : Token → Option Sign
  | .mark .not => some .not
  | .mark .minus => some .minus
  | .keyword .typeOf => some .typeOf
  | _ => none

mutual

/-- An expression, with what stands behind it. -/
def Expr.read : Nat → List Token → Option (Expr × List Token)
  | 0, _ => none
  | fuel + 1, ts => do
    let (left, ts) ← Expr.readComparison fuel ts
    match ts with
    | .mark .or :: ts => do
      let (right, ts) ← Expr.read fuel ts
      return (.binary .or left right, ts)
    | ts => return (left, ts)

def Expr.readComparison : Nat → List Token → Option (Expr × List Token)
  | 0, _ => none
  | fuel + 1, ts => do
    let (left, ts) ← Expr.readSigned fuel ts
    match ts with
    | .mark m :: ts =>
      match comparison? m with
      | some operator => do
        let (right, ts) ← Expr.readSigned fuel ts
        return (.binary operator left right, ts)
      | none => return (left, .mark m :: ts)
    | ts => return (left, ts)

def Expr.readSigned : Nat → List Token → Option (Expr × List Token)
  | 0, _ => none
  | _ + 1, [] => none
  | fuel + 1, t :: ts =>
    match sign? t with
    | some sign => do
      let (operand, ts) ← Expr.readSigned fuel ts
      return (.signed sign operand, ts)
    | none => do
      let (first, ts) ← Expr.readPrimary fuel (t :: ts)
      Expr.readAccesses fuel first ts

/-- An expression that is no operator's, without what is accessed of it: names,
literals, arrays, objects, and calls of constructors. -/
def Expr.readPrimary : Nat → List Token → Option (Expr × List Token)
  | 0, _ => none
  | fuel + 1, ts =>
    match ts with
    | .keyword .null :: ts => some (.null, ts)
    | .name text :: ts => some (.name text, ts)
    | .string value :: ts => some (.string value, ts)
    | .number value :: ts => some (.number value, ts)
    | .mark .braceOpen :: .mark .braceClose :: ts => some (.object, ts)
    | .mark .bracketOpen :: ts => do
      let (items, ts) ← Expr.readItems fuel .bracketClose ts
      return (.array items, ts)
    | .keyword .construct :: .name text :: .mark .parenOpen :: ts => do
      let (arguments, ts) ← Expr.readItems fuel .parenClose ts
      return (.construct text arguments, ts)
    | _ => none

/-- What is accessed of an expression: members, elements and calls. -/
def Expr.readAccesses : Nat → Expr → List Token → Option (Expr × List Token)
  | 0, _, _ => none
  | fuel + 1, first, ts =>
    match ts with
    | .mark .point :: .name text :: ts => Expr.readAccesses fuel (.member first text) ts
    | .mark .bracketOpen :: ts => do
      let (key, ts) ← Expr.read fuel ts
      match ts with
      | .mark .bracketClose :: ts => Expr.readAccesses fuel (.index first key) ts
      | _ => none
    | .mark .parenOpen :: ts => do
      let (arguments, ts) ← Expr.readItems fuel .parenClose ts
      Expr.readAccesses fuel (.call first arguments) ts
    | ts => some (first, ts)

def Expr.readItems : Nat → Mark → List Token → Option (List Expr × List Token)
  | 0, _, _ => none
  | fuel + 1, close, ts =>
    if ts.head? = some (.mark close) then some ([], ts.tail)
    else do
      let (first, ts) ← Expr.read fuel ts
      match ts with
      | .mark m :: ts =>
        if m = close then return ([first], ts)
        else if m = .comma then do
          let (more, ts) ← Expr.readItems fuel close ts
          return (first :: more, ts)
        else none
      | _ => none

end

def Expr.readUpTo (fuel : Nat) (close : Mark) (ts : List Token) :
    Option (Expr × List Token) := do
  let (value, ts) ← Expr.read fuel ts
  match ts with
  | .mark m :: ts => if m = close then some (value, ts) else none
  | _ => none

mutual

def Stmt.read : Nat → List Token → Option (Stmt × List Token)
  | 0, _ => none
  | fuel + 1, ts =>
    match ts with
    | .keyword .constant :: .name text :: .mark .assign :: ts => do
      let (value, ts) ← Expr.readUpTo fuel .semicolon ts
      return (.constant text value, ts)
    | .keyword .throwing :: ts => do
      let (value, ts) ← Expr.readUpTo fuel .semicolon ts
      return (.throwing value, ts)
    | .keyword .returning :: ts => do
      let (value, ts) ← Expr.readUpTo fuel .semicolon ts
      return (.returning value, ts)
    | .mark .braceOpen :: ts => do
      let (body, ts) ← Stmt.readAll fuel ts
      return (.block body, ts)
    | .keyword .condition :: .mark .parenOpen :: ts => do
      let (test, ts) ← Expr.readUpTo fuel .parenClose ts
      let (yes, ts) ← Stmt.read fuel ts
      match ts with
      | .keyword .otherwise :: ts => do
        let (no, ts) ← Stmt.read fuel ts
        return (.condition test yes no, ts)
      | ts => return (.condition test yes (.block []), ts)
    | ts => do
      let (target, ts) ← Expr.readUpTo fuel .assign ts
      let (value, ts) ← Expr.readUpTo fuel .semicolon ts
      match target with
      | .index (.name object) key => return (.store object key value, ts)
      | _ => none

def Stmt.readAll : Nat → List Token → Option (List Stmt × List Token)
  | 0, _ => none
  | fuel + 1, ts =>
    if ts.head? = some (.mark .braceClose) then some ([], ts.tail)
    else do
      let (first, ts) ← Stmt.read fuel ts
      let (more, ts) ← Stmt.readAll fuel ts
      return (first :: more, ts)

end

/-- The function that a list of tokens spells. -/
def Function.ofTokens? (ts : List Token) : Option Function :=
  match ts with
  | .keyword .exporting :: .keyword .function :: .name text :: .mark .parenOpen ::
      .name parameter :: .mark .parenClose :: .mark .braceOpen :: rest => do
    let (body, rest) ← Stmt.readAll (8 * (ts.length + 1)) rest
    if rest.isEmpty then some ⟨text, parameter, body⟩ else none
  | _ => none

def Function.read? (text : String) : Option Function := Function.ofTokens? (tokens text)

end BlockLang.Script
