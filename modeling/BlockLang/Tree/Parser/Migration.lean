import BlockLang.Tree.Basic
import BlockLang.Tree.Parser.Rule

/-! # Reading migrations

A migration has a version and operations between braces. The word of an operation says what
follows it.
-/

namespace BlockLang.Parser

inductive OperationWord where
  | addColumn
  | dropColumn
  | createTable
  | dropTable
  deriving DecidableEq, Repr

def OperationWord.ofWord? (word : String) : Option OperationWord :=
  if word = "addColumn" then some .addColumn
  else if word = "dropColumn" then some .dropColumn
  else if word = "createTable" then some .createTable
  else if word = "dropTable" then some .dropTable
  else none

def readOperation (stop : Position) (ts : List Token) :
    Except ParseError (Operation × List Token) := do
  let (kind, ts) ← expect stop .operation (fun t => word t >>= OperationWord.ofWord?) ts
  let (table, ts) ← expect stop .tableName string ts
  match kind with
  | .addColumn =>
    let (column, ts) ← expect stop .columnName wordOrString ts
    let (typeName, ts) ← expect stop .columnType word ts
    return (.addColumn table column typeName, ts)
  | .dropColumn =>
    let (column, ts) ← expect stop .columnName wordOrString ts
    return (.dropColumn table column, ts)
  | .createTable => return (.createTable table, ts)
  | .dropTable => return (.dropTable table, ts)

theorem length_of_readOperation {stop : Position} {op : Operation} {ts rest : List Token}
    (h : readOperation stop ts = .ok (op, rest)) : rest.length < ts.length := by
  simp only [readOperation, Except.bind_eq_ok_iff, Prod.exists] at h
  obtain ⟨kind, ts₁, h₁, table, ts₂, h₂, h⟩ := h
  have l₁ := length_of_expect h₁
  have l₂ := length_of_expect h₂
  -- Each kind of operation expects a number of words of its own.
  cases kind with
  | addColumn =>
      simp only [Except.bind_eq_ok_iff, Prod.exists] at h
      obtain ⟨column, ts₃, h₃, typeName, ts₄, h₄, h⟩ := h
      have l₃ := length_of_expect h₃
      have l₄ := length_of_expect h₄
      simp only [pure, Except.pure, Except.ok.injEq, Prod.mk.injEq] at h
      rw [← h.2]
      omega
  | dropColumn =>
      simp only [Except.bind_eq_ok_iff, Prod.exists] at h
      obtain ⟨column, ts₃, h₃, h⟩ := h
      have l₃ := length_of_expect h₃
      simp only [pure, Except.pure, Except.ok.injEq, Prod.mk.injEq] at h
      rw [← h.2]
      omega
  | createTable =>
      simp only [pure, Except.pure, Except.ok.injEq, Prod.mk.injEq] at h
      rw [← h.2]
      omega
  | dropTable =>
      simp only [pure, Except.pure, Except.ok.injEq, Prod.mk.injEq] at h
      rw [← h.2]
      omega

def operation (stop : Position) : Rule Operation := ⟨readOperation stop, length_of_readOperation⟩

def migration (stop : Position) (line : Nat) (ts : List Token) :
    Except ParseError (Migration × List Token) := do
  let (version, ts) ← expect stop .migrationVersion wordOrString ts
  let (_, ts) ← expectMark stop .braceOpen ts
  let (operations, ts) ← (operation stop).untilBrace ts
  return ({ version, operations, line }, ts)

def importing (stop : Position) (line : Nat) (ts : List Token) :
    Except ParseError (Import × List Token) := do
  let (path, ts) ← expect stop .importPath string ts
  return ({ path, line }, ts)

end BlockLang.Parser
