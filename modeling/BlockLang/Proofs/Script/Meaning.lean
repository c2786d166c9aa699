import BlockLang.Json.Value
import BlockLang.Proofs.Script.Syntax
import BlockLang.Text.Units

/-! # The script language: what trees do

Values, their conversions to texts, numbers and truth values, and the evaluation of the trees. The
properties of an object are its own; none is inherited. What has no meaning here is stuck: it has no
result, rather than a wrong one.
-/

namespace BlockLang

namespace Script

/-- A value of a script. -/
inductive Value where
  | undefined
  | null
  | boolean (value : Bool)
  | number (value : Reading)
  | string (value : String)
  | array (items : List Value)
  | object (properties : List (String × Value))
  /-- An instance of a class, made from some arguments. -/
  | constructed (className : String) (arguments : List Value)
  deriving Repr

mutual

/-- A JSON value as a script sees it: every number is a double. -/
def Value.ofJson : Json → Value
  | .null => .null
  | .bool value => .boolean value
  | .whole value => .number (((Double.ofInt? value).map .finite).getD (.infinite (value < 0)))
  | .double value => .number (.finite value)
  | .text value => .string value
  | .array items => .array (Value.ofItems items)
  | .object members => .object (Value.ofMembers members)

def Value.ofItems : List Json → List Value
  | [] => []
  | item :: rest => Value.ofJson item :: Value.ofItems rest

def Value.ofMembers : List (String × Json) → List (String × Value)
  | [] => []
  | (key, value) :: rest => (key, Value.ofJson value) :: Value.ofMembers rest

end

/-! ## Numbers -/

/-- A number is written positionally from 10⁻⁷ up to 10²¹, as the language does
it when it turns a number into a text. -/
def numberLayout : Decimal.Layout where
  tie := .toEven
  positional := fun e => -7 ≤ e && e < 21
  keepsFraction := false

/-- The text of a number; the two zeros have the same. -/
def numberText : Reading → String
  | .finite value => if value.isZero then "0" else numberLayout.write value
  | .infinite true => "-Infinity"
  | .infinite false => "Infinity"
  | .notANumber => "NaN"

def numberEqual : Reading → Reading → Bool
  | .finite x, .finite y => x.signedSteps == y.signedSteps
  | .infinite x, .infinite y => x == y
  | _, _ => false

def numberLess : Reading → Reading → Bool
  | .finite x, .finite y => x < y
  | .infinite negative, .finite _ => negative
  | .finite _, .infinite negative => !negative
  | .infinite x, .infinite y => x && !y
  | _, _ => false

def negate : Reading → Reading
  | .finite value => .finite { value with negative := !value.negative }
  | .infinite negative => .infinite !negative
  | .notANumber => .notANumber

def trim (cs : List Char) : List Char :=
  ((cs.dropWhile isBlank).reverse.dropWhile isBlank).reverse

def splitBase? : List Char → Option (Nat × List Char)
  | '0' :: c :: rest =>
    if c = 'x' ∨ c = 'X' then some (16, rest)
    else if c = 'o' ∨ c = 'O' then some (8, rest)
    else if c = 'b' ∨ c = 'B' then some (2, rest)
    else none
  | _ => none

def baseNumber (base : Nat) (cs : List Char) : Reading :=
  match digits? base cs with
  | some n =>
    if cs.isEmpty then .notANumber
    else ((Double.round? false (n * Double.one) 1).map Reading.finite).getD (.infinite false)
  | none => .notANumber

def decimalNumber (cs : List Char) : Reading :=
  let (negative, rest) := Decimal.splitSign cs
  if rest = "Infinity".toList then .infinite negative
  else (Decimal.readDigits? negative rest).getD .notANumber

/-- The number that a text stands for. -/
def numberOfText (s : String) : Reading :=
  let cs := trim s.toList
  if cs.isEmpty then .finite (.ofNat 0)
  else match splitBase? cs with
    | some (base, digits) => baseNumber base digits
    | none => decimalNumber cs

/-! ## Conversions -/

namespace Value

mutual

/-- The text of a value. -/
def text : Value → String
  | undefined => "undefined"
  | null => "null"
  | boolean true => "true"
  | boolean false => "false"
  | number value => numberText value
  | string value => value
  | array items => String.intercalate "," (itemTexts items)
  | object _ | constructed _ _ => "[object Object]"

def itemTexts : List Value → List String
  | [] => []
  | undefined :: rest => "" :: itemTexts rest
  | null :: rest => "" :: itemTexts rest
  | item :: rest => item.text :: itemTexts rest

end

def toNumber : Value → Reading
  | undefined => .notANumber
  | null => .finite (.ofNat 0)
  | boolean value => .finite (.ofNat value.toNat)
  | number value => value
  | string value => numberOfText value
  | value => numberOfText value.text

def toBoolean : Value → Bool
  | undefined | null => false
  | boolean value => value
  | number (.finite value) => !value.isZero
  | number (.infinite _) => true
  | number .notANumber => false
  | string value => !value.isEmpty
  | array _ | object _ | constructed _ _ => true

def typeName : Value → String
  | undefined => "undefined"
  | boolean _ => "boolean"
  | number _ => "number"
  | string _ => "string"
  | null | array _ | object _ | constructed _ _ => "object"

def isObject : Value → Bool
  | array _ | object _ | constructed _ _ => true
  | _ => false

/-- Whether two values are strictly equal. -/
def strictEqual? : Value → Value → Option Bool
  | undefined, undefined => some true
  | null, null => some true
  | boolean x, boolean y => some (x == y)
  | number x, number y => some (numberEqual x y)
  | string x, string y => some (x == y)
  | x, y => if x.isObject && y.isObject then none else some false

/-- Whether an item of an array is found by a value: as strictly equal, or as no
number either. -/
def sameValue? : Value → Value → Option Bool
  | number .notANumber, number .notANumber => some true
  | x, y => x.strictEqual? y

end Value

/-! ## Evaluation -/

def setProperty (key : String) (value : Value) :
    List (String × Value) → List (String × Value)
  | [] => [(key, value)]
  | (k, v) :: rest => if k = key then (k, value) :: rest else (k, v) :: setProperty key value rest

abbrev Env := List (List (String × Value))

namespace Env

def get? (env : Env) (name : String) : Option Value := env.findSome? (·.lookup name)

def declare? (name : String) (value : Value) : Env → Option Env
  | [] => none
  | scope :: rest =>
    if (scope.lookup name).isSome then none else some (((name, value) :: scope) :: rest)

def storeIn? (name key : String) (value : Value) :
    List (String × Value) → Option (List (String × Value))
  | [] => none
  | (x, v) :: rest =>
    if x = name then
      match v with
      | .object properties => some ((x, .object (setProperty key value properties)) :: rest)
      | _ => none
    else ((x, v) :: ·) <$> storeIn? name key value rest

def store? (name key : String) (value : Value) : Env → Option Env
  | [] => none
  | scope :: rest =>
    if (scope.lookup name).isSome then (· :: rest) <$> storeIn? name key value scope
    else (scope :: ·) <$> store? name key value rest

end Env

def member? : Value → String → Option Value
  | .string value, "length" => some (.number (.finite (.ofNat (Text.units value))))
  | .array items, "length" => some (.number (.finite (.ofNat items.length)))
  | _, _ => none

/-- The property of an object, or nothing if it has none of that key. -/
def property? : Value → Value → Option Value
  | .object properties, .string key => some ((properties.lookup key).getD .undefined)
  | _, _ => none

def global? : String → Option Value
  | "undefined" => some .undefined
  | _ => none

def builtin? : String → List Value → Option Value
  | "Number", [value] => some (.number value.toNumber)
  | "Boolean", [value] => some (.boolean value.toBoolean)
  | _, _ => none

def builtinMember? : String → String → List Value → Option Value
  | "Number", "isFinite", [value] => some <| .boolean <| match value with
    | .number (.finite _) => true
    | _ => false
  | "Number", "isInteger", [value] => some <| .boolean <| match value with
    | .number (.finite x) => x.isWhole
    | _ => false
  | "Array", "isArray", [value] => some <| .boolean <| match value with
    | .array _ => true
    | _ => false
  | _, _, _ => none

def method? : Value → String → List Value → Option Value
  | .array items, "includes", [value] => do
    let found ← items.mapM (·.sameValue? value)
    return .boolean (found.contains true)
  | _, _, _ => none

def signed? : Sign → Value → Option Value
  | .not, value => some (.boolean !value.toBoolean)
  | .typeOf, value => some (.string value.typeName)
  | .minus, .number value => some (.number (negate value))
  | .minus, _ => none

/-- The value of a comparison. -/
def compare? : Operator → Value → Value → Option Value
  | .strictEqual, x, y => (.boolean ·) <$> x.strictEqual? y
  | .strictUnequal, x, y => (.boolean !·) <$> x.strictEqual? y
  | .less, .number x, .number y => some (.boolean (numberLess x y))
  | .greater, .number x, .number y => some (.boolean (numberLess y x))
  | _, _, _ => none

mutual

/-- The value of an expression. There is none where the evaluation would throw,
or where the model does not say what happens. -/
def Expr.eval (env : Env) : Expr → Option Value
  | .null => some .null
  | .name text => (env.get? text).or (global? text)
  | .string value => some (.string value)
  | .number value => some (.number value)
  | .array items => .array <$> Expr.evalAll env items
  | .object => some (.object [])
  | .signed sign operand => do signed? sign (← operand.eval env)
  | .binary .or left right => do
    let value ← left.eval env
    if value.toBoolean then some value else right.eval env
  | .binary operator left right => do compare? operator (← left.eval env) (← right.eval env)
  | .member target label => do member? (← target.eval env) label
  | .index target key => do property? (← target.eval env) (← key.eval env)
  | .call (.name function) arguments => do
    -- A name that the script gives to something else is no function.
    if (env.get? function).isSome then none
    else builtin? function (← Expr.evalAll env arguments)
  | .call (.member (.name target) label) arguments =>
    match env.get? target with
    | some value => do method? value label (← Expr.evalAll env arguments)
    | none => do builtinMember? target label (← Expr.evalAll env arguments)
  | .call (.member target label) arguments => do
    method? (← target.eval env) label (← Expr.evalAll env arguments)
  | .call _ _ => none
  | .construct className arguments => do
    if (env.get? className).isSome then none
    else return .constructed className (← Expr.evalAll env arguments)

def Expr.evalAll (env : Env) : List Expr → Option (List Value)
  | [] => some []
  | first :: rest => do return (← first.eval env) :: (← Expr.evalAll env rest)

end

inductive Effect where
  | next (env : Env)
  | returns (value : Value)
  | throws (value : Value)
  deriving Repr

def Effect.leave : Effect → Effect
  | next env => .next env.tail
  | effect => effect

mutual

def Stmt.run (env : Env) : Stmt → Option Effect
  | .constant name value => do return .next (← env.declare? name (← value.eval env))
  | .store object key value => do
    match ← key.eval env with
    | .string key => return .next (← env.store? object key (← value.eval env))
    | _ => none
  | .throwing value => do return .throws (← value.eval env)
  | .returning value => do return .returns (← value.eval env)
  | .block body => Effect.leave <$> Stmt.runAll ([] :: env) body
  | .condition test yes no => do
    if (← test.eval env).toBoolean then yes.run env else no.run env

/-- The effect of statements in their order. -/
def Stmt.runAll (env : Env) : List Stmt → Option Effect
  | [] => some (.next env)
  | first :: rest => do
    match ← first.run env with
    | .next env => Stmt.runAll env rest
    | effect => return effect

end

inductive Result where
  | returned (value : Value)
  | thrown (value : Value)
  deriving Repr

def Function.call (f : Function) (argument : Value) : Option Result := do
  match ← Stmt.runAll [[(f.parameter, argument)]] f.body with
  | .next _ => return .returned .undefined
  | .returns value => return .returned value
  | .throws value => return .thrown value

/-- The result of a call of the function that a text spells. -/
def call (text : String) (argument : Value) : Option Result := do
  (← Function.read? text).call argument

end Script

end BlockLang
