import BlockLang.Proofs.Script.Syntax

/-! # Names in scope

Generated code is read for the names that it uses. A text is cut into words, literals and marks, and
the tokens are read with a stack of scopes, so that a name which a block, a list of parameters or a
loop declares is not taken for one of the module. What is not understood is refused, never read as
something else. What is read inside of one scope does not depend on the scopes around it.
-/

namespace BlockLang.Scopes

/-! ## Tokens -/

/-- A token of generated code. -/
inductive Token where
  | keyword (word : String)
  | name (word : String)
  | number
  | string
  | mark (mark : Char)
  | invalid
  deriving DecidableEq, Repr

def Token.ofWord (word : String) : Token :=
  if Code.isReserved word then .keyword word else .name word

inductive Mode where
  | code
  | word (read : List Char)
  | number
  | string
  /-- Behind a backslash inside of a string. -/
  | escape
  | slash
  | comment
  | template
  /-- Behind a dollar sign inside of a template. -/
  | dollar
  deriving DecidableEq, Repr

structure Lexer where
  mode : Mode
  /-- Whether the code is that of a hole of a template. -/
  hole : Bool
  deriving DecidableEq, Repr

def marks : List Char :=
  ['(', ')', '[', ']', '{', '}', ';', ',', '.', ':', '=', '<', '>', '!', '?', '+', '-', '&',
    '|']

namespace Lexer

def inCode : Lexer := ⟨.code, false⟩

/-- What a character begins in code. -/
def start (hole : Bool) (c : Char) : List Token × Lexer :=
  if c = ' ' ∨ c = '\n' then ([], ⟨.code, hole⟩)
  else if Script.isNameStart c then ([], ⟨.word [c], hole⟩)
  else if c.isDigit then ([], ⟨.number, hole⟩)
  else if c = '"' then ([], ⟨.string, hole⟩)
  else if c = '/' then ([], ⟨.slash, hole⟩)
  else if c = '`' then ([if hole then .invalid else .mark '('], ⟨.template, false⟩)
  else if c = '}' ∧ hole then ([.mark ')'], ⟨.template, false⟩)
  else if c = '{' ∧ hole then ([.invalid], ⟨.code, hole⟩)
  else ([if marks.contains c then .mark c else .invalid], ⟨.code, hole⟩)

def step (l : Lexer) (c : Char) : List Token × Lexer :=
  match l.mode with
  | .code => start l.hole c
  | .word read =>
    if Script.isNamePart c then ([], ⟨.word (read ++ [c]), l.hole⟩)
    else (.ofWord (String.ofList read) :: (start l.hole c).1, (start l.hole c).2)
  | .number =>
    if Script.isNamePart c || c == '.' then ([], l)
    else (.number :: (start l.hole c).1, (start l.hole c).2)
  | .string =>
    if c = '"' then ([.string], ⟨.code, l.hole⟩)
    else if c = '\\' then ([], ⟨.escape, l.hole⟩)
    else if c = '\n' then ([.invalid], ⟨.code, l.hole⟩)
    else ([], l)
  | .escape => ([], ⟨.string, l.hole⟩)
  | .slash => if c = '/' then ([], ⟨.comment, l.hole⟩) else ([.invalid], ⟨.code, l.hole⟩)
  | .comment => if c = '\n' then ([], ⟨.code, l.hole⟩) else ([], l)
  | .template =>
    if c = '`' then ([.mark ')'], ⟨.code, false⟩)
    else if c = '$' then ([], ⟨.dollar, false⟩)
    else if c = '\\' then ([.invalid], ⟨.code, false⟩)
    else ([], l)
  | .dollar =>
    if c = '{' then ([.mark '('], ⟨.code, true⟩)
    else if c = '`' then ([.mark ')'], ⟨.code, false⟩)
    else if c = '\\' then ([.invalid], ⟨.code, false⟩)
    else ([], ⟨if c = '$' then .dollar else .template, false⟩)

/-- The tokens of some characters, and the lexer behind them. A word or a number
at the very end is not a token yet, so that texts can be put together. -/
def lex (l : Lexer) : List Char → List Token × Lexer
  | [] => ([], l)
  | c :: rest => ((l.step c).1 ++ ((l.step c).2.lex rest).1, ((l.step c).2.lex rest).2)

end Lexer

/-! ## Scopes -/

/-- What opened a scope. It decides which names the scope declares, and where
those go that it uses but does not declare. -/
inductive Kind where
  /-- The braces of a block or an object. -/
  | block
  /-- Brackets or parentheses in an expression. -/
  | group
  /-- Brackets or braces around declared names. -/
  | names
  | parameters
  /-- The parentheses of a loop. -/
  | loop
  /-- Parameters or a loop behind the closing parenthesis: the scope goes on in a block. -/
  | head
  deriving DecidableEq, Repr

structure Frame where
  kind : Kind
  declared : List String
  used : List String
  deriving DecidableEq, Repr

/-- What stands before the next token, as far as it matters: a name is read as a
declaration, a use or a key only when the token behind it is known. -/
inductive Before where
  | other
  /-- Where a statement, an element or a key may begin. -/
  | start
  | point
  /-- Two points, of the three that spread a value. -/
  | points
  /-- A word that declares the names behind it. -/
  | declaring
  /-- A word that begins a function. -/
  | naming
  /-- The name of a function, or what else parameters follow. -/
  | titled
  /-- A word that begins a loop. -/
  | looping
  /-- A name of which it is not yet known what it is there for, and whether it is the first. -/
  | name (first : Bool) (word : String)
  deriving DecidableEq, Repr

inductive Move where
  | pass (before : Before)
  | declare (word : String) (before : Before)
  | enter (kind : Kind)
  | leave (mark : Char)

namespace Before

def ofKeyword (word : String) : Before :=
  if word = "const" ∨ word = "let" ∨ word = "import" then .declaring
  else if word = "function" then .naming
  else if word = "catch" then .titled
  else if word = "for" then .looping
  else .other

/-- What a name does. -/
def moveOfName? (word : String) : Before → Option Move
  | .point => some (.pass .other)
  | .declaring => some (.declare word .other)
  | .naming => some (.declare word .titled)
  | .name _ last =>
    if last = "async" then some (.pass .titled)
    else if last = "of" then some (.pass (.name false word))
    else none
  | .start => some (.pass (.name true word))
  | .other | .points | .titled | .looping => some (.pass (.name false word))

def moveOfMark (c : Char) (b : Before) : Move :=
  if c = '(' then
    .enter (match b with | .titled => .parameters | .looping => .loop | _ => .group)
  else if c = '[' then .enter (match b with | .declaring => .names | _ => .group)
  else if c = '{' then .enter (match b with | .declaring => .names | _ => .block)
  else if c = ')' ∨ c = ']' ∨ c = '}' then .leave c
  else if c = ',' ∨ c = ';' then .pass .start
  else if c = '.' then
    .pass (match b with | .point => .points | .points => .other | _ => .point)
  else .pass .other

def move? (b : Before) : Token → Option Move
  | .keyword word => some (.pass (.ofKeyword word))
  | .name word => b.moveOfName? word
  | .number => some (.pass .other)
  | .string =>
    match b with
    | .name _ word => if word = "from" then some (.pass .other) else none
    | _ => some (.pass .other)
  | .mark c => some (b.moveOfMark c)
  | .invalid => none

/-- The name that stands before a token and is used or declared there. -/
def pending? : Before → Token → Option (Bool × String)
  | .name _ _, .name _ | .name _ _, .string => none
  | .name true _, .mark ':' => none
  | .name first word, _ => some (first, word)
  | _, _ => none

end Before

def settle (pending : Option (Bool × String)) : List Frame → Option (List Frame)
  | [] => none
  | f :: rest =>
    match pending with
    | none => some (f :: rest)
    | some (first, word) =>
      if f.kind = .names ∨ f.kind = .parameters ∧ first then
        some ({ f with declared := f.declared ++ [word] } :: rest)
      else some ({ f with used := f.used ++ [word] } :: rest)

/-- The scopes with names that a scope inside of them leaves to them. -/
def hand (names : List String) : List Frame → Option (List Frame)
  | [] => none
  | f :: rest =>
    if f.kind = .head then
      match rest with
      | [] => none
      | g :: rest =>
        some ({ g with used := g.used ++ (f.used ++ names).filter (· ∉ f.declared) } :: rest)
    else some ({ f with used := f.used ++ names } :: rest)

/-- The scopes behind a closing mark. A block leaves those of its names to the
scope around it that it does not declare. -/
def close (c : Char) : List Frame → Option (List Frame)
  | [] => none
  | f :: rest =>
    match f.kind with
    | .block => if c = '}' then hand (f.used.filter (· ∉ f.declared)) rest else none
    | .group => if c = '}' then none else hand f.used rest
    | .names =>
      match rest with
      | [] => none
      | g :: rest =>
        if c = ')' then none
        else some ({ g with declared := g.declared ++ f.declared } :: rest)
    | .parameters | .loop => if c = ')' then some ({ f with kind := .head } :: rest) else none
    | .head => none

structure State where
  stack : List Frame
  before : Before
  deriving DecidableEq, Repr

def Move.apply : Move → List Frame → Option State
  | .pass before, stack => some ⟨stack, before⟩
  | .declare _ _, [] => none
  | .declare word before, f :: rest =>
    some ⟨{ f with declared := f.declared ++ [word] } :: rest, before⟩
  | .enter kind, stack => some ⟨⟨kind, [], []⟩ :: stack, .start⟩
  | .leave c, stack => (close c stack).map (⟨·, if c = '}' then .start else .other⟩)

def awaitsBlock : List Frame → Bool
  | f :: _ => f.kind == .head
  | [] => false

namespace State

def step (s : State) (t : Token) : Option State :=
  if awaitsBlock s.stack && t != .mark '{' then none
  else do
    let move ← s.before.move? t
    let stack ← settle (s.before.pending? t) s.stack
    move.apply stack

def scan (s : State) (ts : List Token) : Option State := ts.foldlM step s

def atStart : State := ⟨[⟨.block, [], []⟩], .start⟩

end State

/-- The names that the code of a module declares outside of all blocks and those
that it uses of the module or of what is around it, both in their order. -/
def read? (text : String) : Option (List String × List String) :=
  let (ts, l) := Lexer.inCode.lex text.toList
  if l = .inCode then
    match State.atStart.scan ts with
    | some ⟨[f], .start⟩ => some (f.declared, f.used)
    | _ => none
  else none

example : read? "function f(a) { let b = g(a.c); return { b: d }; }" =
    some (["f"], ["g", "d"]) := by decide

example : read? r"for (const [a, b] of c) { d(`${a}, ${e.b}`); }" =
    some ([], ["c", "d", "e"]) := by decide

/-! ## Scopes around the code -/

/-- A stack of scopes with more names in the last one and more scopes around
it. -/
def extend (D U : List String) (S : List Frame) : List Frame → List Frame
  | [] => S
  | [f] => ⟨f.kind, D ++ f.declared, U ++ f.used⟩ :: S
  | f :: g :: rest => f :: extend D U S (g :: rest)

variable {D U : List String} {S stack stack' : List Frame}

theorem extend_cons (f : Frame) (h : stack ≠ []) :
    extend D U S (f :: stack) = f :: extend D U S stack := by
  cases stack with
  | nil => exact absurd rfl h
  | cons g rest => rfl

/-- Only the names of a scope are changed, and the scopes behind the first
one. -/
theorem exists_extend_cons (f : Frame) (rest : List Frame) :
    ∃ f' rest', extend D U S (f :: rest) = f' :: rest' ∧ f'.kind = f.kind := by
  cases rest with
  | nil => exact ⟨_, _, rfl, rfl⟩
  | cons g rest => exact ⟨_, _, rfl, rfl⟩

/-- A name that is settled in the innermost scope is settled there whatever is
around it, and the scope stays open. -/
theorem settle_extend {pending : Option (Bool × String)} (h : settle pending stack = some stack') :
    settle pending (extend D U S stack) = some (extend D U S stack') ∧ stack' ≠ [] := by
  rcases stack with _ | ⟨f, rest⟩
  · cases h
  rcases pending with _ | ⟨first, word⟩
  · obtain rfl := Option.some.inj h
    obtain ⟨f', rest', hextend, -⟩ := exists_extend_cons (D := D) (U := U) (S := S) f rest
    rw [hextend]
    exact ⟨rfl, List.cons_ne_nil _ _⟩
  · simp only [settle] at h
    split at h
    all_goals
      next hkind =>
        obtain rfl := Option.some.inj h
        cases rest with
        | nil => simp [extend, settle, hkind]
        | cons g rest => simp [extend, settle, hkind]

theorem hand_extend {names : List String} (h : hand names stack = some stack') :
    hand names (extend D U S stack) = some (extend D U S stack') ∧ stack' ≠ [] := by
  rcases stack with _ | ⟨f, rest⟩
  · cases h
  simp only [hand] at h
  split at h
  next hkind =>
    rcases rest with _ | ⟨g, rest⟩
    · cases h
    · obtain rfl := Option.some.inj h
      cases rest with
      | nil => simp [extend, hand, hkind]
      | cons g rest => simp [extend, hand, hkind]
  next hkind =>
    obtain rfl := Option.some.inj h
    cases rest with
    | nil => simp [extend, hand, hkind]
    | cons g rest => simp [extend, hand, hkind]

/-- Closing a scope hands its names to the next one alone. -/
theorem close_extend {c : Char} (h : close c stack = some stack') :
    close c (extend D U S stack) = some (extend D U S stack') ∧ stack' ≠ [] := by
  rcases stack with _ | ⟨⟨kind, declared, used⟩, rest⟩
  · cases h
  -- A scope that is left has another one around it, so it is not the last.
  have hhand {names : List String} (h : hand names rest = some stack') :
      extend D U S (⟨kind, declared, used⟩ :: rest) =
        ⟨kind, declared, used⟩ :: extend D U S rest := by
    refine extend_cons _ ?_
    rintro rfl
    cases h
  cases kind with
  | block =>
      simp only [close] at h
      split at h
      next hc =>
        simp only [hhand h, close, if_pos hc]
        exact hand_extend h
      next => cases h
  | group =>
      simp only [close] at h
      split at h
      next => cases h
      next hc =>
        simp only [hhand h, close, if_neg hc]
        exact hand_extend h
  | names =>
      rcases rest with _ | ⟨g, rest⟩
      · cases h
      simp only [close] at h
      split at h
      next => cases h
      next hc =>
        obtain rfl := Option.some.inj h
        cases rest with
        | nil => simp [extend, close, hc]
        | cons g rest => simp [extend, close, hc]
  | parameters | loop =>
      simp only [close] at h
      split at h
      next hc =>
        obtain rfl := Option.some.inj h
        cases rest with
        | nil => simp [extend, close, hc]
        | cons g rest => simp [extend, close, hc]
      next => cases h
  | head => cases h

namespace State

def extend (D U : List String) (S : List Frame) (s : State) : State :=
  ⟨Scopes.extend D U S s.stack, s.before⟩

end State

theorem apply_extend {move : Move} {s' : State} (hne : stack ≠ [])
    (h : move.apply stack = some s') :
    move.apply (extend D U S stack) = some (s'.extend D U S) ∧ s'.stack ≠ [] := by
  cases move with
  | pass before =>
      obtain rfl := Option.some.inj h
      exact ⟨rfl, hne⟩
  | declare word before =>
      rcases stack with _ | ⟨f, rest⟩
      · cases h
      obtain rfl := Option.some.inj h
      cases rest with
      | nil => simp [extend, State.extend, Move.apply]
      | cons g rest => simp [extend, State.extend, Move.apply]
  | enter kind =>
      obtain rfl := Option.some.inj h
      simp [State.extend, Move.apply, extend_cons _ hne]
  | leave c =>
      obtain ⟨stack', hclose, rfl⟩ := Option.map_eq_some_iff.mp h
      obtain ⟨hclose, hne'⟩ := close_extend (D := D) (U := U) (S := S) hclose
      rw [Move.apply, hclose]
      exact ⟨rfl, hne'⟩

theorem awaitsBlock_extend (h : stack ≠ []) :
    awaitsBlock (extend D U S stack) = awaitsBlock stack := by
  rcases stack with _ | ⟨f, rest⟩
  · exact absurd rfl h
  obtain ⟨f', rest', hextend, hkind⟩ := exists_extend_cons (D := D) (U := U) (S := S) f rest
  rw [hextend, awaitsBlock, awaitsBlock, hkind]

namespace State

variable {s s' : State} {t : Token} {ts : List Token}

/-- One token does the same to a state and to the state in the middle of other
scopes. -/
theorem step_extend (hne : s.stack ≠ []) (h : s.step t = some s') :
    (s.extend D U S).step t = some (s'.extend D U S) ∧ s'.stack ≠ [] := by
  unfold step at h ⊢
  rw [extend, awaitsBlock_extend hne]
  split at h
  · cases h
  next hawaits =>
    rw [if_neg hawaits]
    obtain ⟨move, hmove, h⟩ := Option.bind_eq_some_iff.mp h
    obtain ⟨stack, hsettle, h⟩ := Option.bind_eq_some_iff.mp h
    obtain ⟨hsettle, hne'⟩ := settle_extend (D := D) (U := U) (S := S) hsettle
    simp only [hmove, hsettle, Option.bind_eq_bind, Option.bind_some]
    exact apply_extend hne' h

/-- What tokens do inside of a scope does not depend on the scopes around it, so
code can be read alone and then be put where it belongs. -/
theorem scan_extend (hne : s.stack ≠ []) (h : s.scan ts = some s') :
    (s.extend D U S).scan ts = some (s'.extend D U S) := by
  induction ts generalizing s with
  | nil => exact congrArg _ (congrArg _ (Option.some.inj h))
  | cons t rest ih =>
      obtain ⟨mid, hstep, hrest⟩ := Option.bind_eq_some_iff.mp h
      obtain ⟨hstep, hmid⟩ := step_extend (D := D) (U := U) (S := S) hne hstep
      exact Option.bind_eq_some_iff.mpr ⟨_, hstep, ih hmid hrest⟩

end State

end BlockLang.Scopes
