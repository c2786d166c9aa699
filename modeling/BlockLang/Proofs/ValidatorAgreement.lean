import BlockLang.Proofs.Emitters
import BlockLang.Proofs.Members
import BlockLang.Proofs.ParsedSchemas
import BlockLang.Proofs.Script.Conversions
import BlockLang.Proofs.Script.Validator

/-! # Validators and their scripts

The script of a validator does what the validation does: it throws the failure that the validation
reports, or returns the record that the validation gives.
-/

namespace BlockLang

/-- Whether the value that a check reads as a number stands for the same number
in a script. -/
def Check.ReadsAlike (c : Check) (value : Option Json) : Prop :=
  c.kind = .integer ∨ c.kind = .number → ∀ j, value = some j → j.ReadsAlike

namespace Script

open Server

/-! ## Tests -/

theorem eval_numberTree (env : Env) (x : Double) :
    (numberTree x).eval env = some (.number (.finite x)) := by
  obtain ⟨negative, steps⟩ := x
  cases negative <;> rfl

theorem evalAll_strings (env : Env) (values : List String) :
    Expr.evalAll env (values.map .string) = some (values.map .string) := by
  induction values with
  | nil => rfl
  | cons s values ih => simp [Expr.evalAll, Expr.eval, ih]

theorem method?_includes (values : List String) (s : String) :
    method? (.array (values.map .string)) "includes" [.string s] =
      some (.boolean (values.contains s)) := by
  have hfound : (values.map Value.string).mapM (·.sameValue? (.string s)) =
      some (values.map (· == s)) := by
    induction values with
    | nil => rfl
    | cons t values ih =>
        rw [List.map_cons, List.mapM_cons, ih]
        rfl
  have hcontains : (values.map (· == s)).contains true = values.contains s := by
    rw [Bool.eq_iff_iff]
    simp
  simp only [method?, hfound, Option.bind_eq_bind, Option.bind_some, hcontains]
  rfl

variable {env : Env} {c : Check} {g : Guard} {v : Json}

/-- The tests of the guards on texts say what the guards do not accept. -/
theorem eval_refusal_text {s : String} (hvalue : env.get? "value" = some (.string s))
    (hpattern : c.pattern = none) (hformat : c.format = none)
    (hg : g ∈ c.textGuards) :
    (refusalTree g).eval env = some (.boolean (!g.accepts (.text s))) := by
  simp only [Check.textGuards, hpattern, hformat, Option.map_none, Option.toList_none,
    List.append_nil, List.mem_append, List.mem_singleton, Option.mem_toList,
    Option.map_eq_some_iff] at hg
  rcases hg with ((rfl | ⟨x, -, rfl⟩) | ⟨x, -, rfl⟩) | ⟨values, -, rfl⟩
  · simp [refusalTree, Expr.eval, hvalue, signed?, compare?, Value.typeName, Value.strictEqual?,
      Guard.accepts]
  · simp [refusalTree, Expr.eval, hvalue, eval_numberTree, member?, compare?, numberLess,
      Guard.accepts, Guard.onText]
  · simp [refusalTree, Expr.eval, hvalue, eval_numberTree, member?, compare?, numberLess,
      Guard.accepts, Guard.onText]
  · simp [refusalTree, Expr.eval, Expr.evalAll, hvalue, evalAll_strings, method?_includes, signed?,
      Value.toBoolean, Guard.accepts, Guard.onText]

theorem steps_eq_of_signedSteps {x y : Double} (h : x.signedSteps = y.signedSteps) :
    x.steps = y.steps := by
  unfold Double.signedSteps at h
  split at h <;> split at h <;> omega

/-- The tests of the guards on numbers say what the guards do not accept, once
the number is known to be finite. -/
theorem eval_refusal_number {x y : Double} (hn : env.get? "n" = some (.number (.finite x)))
    (hnumber : env.get? "Number" = none)
    (hv : v.toNumber = .finite y) (hsame : x.signedSteps = y.signedSteps)
    (hg : g ∈ c.numberGuards) :
    (refusalTree g).eval env = some (.boolean (!g.accepts v)) := by
  have hwhole : x.isWhole = y.isWhole := by
    rw [Double.isWhole, Double.isWhole, steps_eq_of_signedSteps hsame]
  have hless : ∀ z : Double, (x < z ↔ y < z) ∧ (z < x ↔ z < y) := by
    intro z
    change (x.signedSteps < _ ↔ y.signedSteps < _) ∧ (_ < x.signedSteps ↔ _ < y.signedSteps)
    rw [hsame]
    exact ⟨Iff.rfl, Iff.rfl⟩
  simp only [Check.numberGuards, List.mem_append, List.mem_singleton, Option.mem_toList,
    Option.map_eq_some_iff] at hg
  rcases hg with ((rfl | hg) | ⟨z, -, rfl⟩) | ⟨z, -, rfl⟩
  · simp [refusalTree, Expr.eval, Expr.evalAll, hn, hnumber, builtinMember?, signed?,
      Value.toBoolean, Guard.accepts, hv]
  · split at hg
    · obtain rfl := List.mem_singleton.mp hg
      simp [refusalTree, Expr.eval, Expr.evalAll, hn, hnumber, builtinMember?, signed?,
        Value.toBoolean, Guard.accepts, Guard.onNumber, hv, hwhole]
    · cases hg
  · simp [refusalTree, Expr.eval, hn, eval_numberTree, compare?, numberLess, Guard.accepts,
      Guard.onNumber, hv, hless z]
  · simp [refusalTree, Expr.eval, hn, eval_numberTree, compare?, numberLess, Guard.accepts,
      Guard.onNumber, hv, hless z]

/-! ## Statements -/

theorem runAll_singleton (env : Env) (s : Stmt) : Stmt.runAll env [s] = s.run env := by
  rw [Stmt.runAll]
  cases s.run env with
  | none => rfl
  | some effect => cases effect <;> rfl

theorem run_condition {test : Expr} {b : Bool} (h : test.eval env = some (.boolean b))
    (yes no : Stmt) :
    (Stmt.condition test yes no).run env = (if b then yes else no).run env := by
  rw [Stmt.run, h]
  cases b <;> rfl

def failureValue (failure : Failure) : Value :=
  .constructed "ValidationFailure" [(failure.field.map .string).getD .null, .string failure.message]

theorem run_failureTree (hclass : env.get? "ValidationFailure" = none) (field : String)
    (kind : FailureKind) (message : String) :
    (failureTree (.string field) message).run env =
      some (.throws (failureValue ⟨some field, kind, message⟩)) := by
  simp [failureTree, Stmt.run, Expr.eval, Expr.evalAll, hclass, failureValue]

/-- The line of a guard goes on if the guard accepts the value, and throws its
failure otherwise. -/
theorem run_guardTree (hclass : env.get? "ValidationFailure" = none)
    (h : (refusalTree g).eval env = some (.boolean (!g.accepts v))) (field : String) :
    (guardTree field g).run env = if g.accepts v then some (.next env)
      else some (.throws (failureValue ⟨some field, g.failure, g.message field⟩)) := by
  rw [guardTree, run_condition h]
  cases g.accepts v with
  | false => exact run_failureTree hclass field g.failure (g.message field)
  | true => rfl

/-- Guards one after the other throw for the first of them that does not accept
the value. -/
theorem runAll_guards (hclass : env.get? "ValidationFailure" = none) {gs : List Guard}
    (h : ∀ g ∈ gs, (refusalTree g).eval env = some (.boolean (!g.accepts v)))
    (field : String) (rest : List Stmt) :
    Stmt.runAll env (gs.map (guardTree field) ++ rest) =
      match gs.find? (!·.accepts v) with
      | some g => some (.throws (failureValue ⟨some field, g.failure, g.message field⟩))
      | none => Stmt.runAll env rest := by
  induction gs with
  | nil => rfl
  | cons g gs ih =>
      obtain ⟨hg, hgs⟩ := List.forall_mem_cons.mp h
      rw [List.map_cons, List.cons_append, Stmt.runAll, run_guardTree hclass hg, List.find?_cons]
      cases hacc : g.accepts v with
      | false => rfl
      | true => simpa using ih hgs

/-! ## Checks -/

inductive Value.Same : Value → Value → Prop
  | refl (v : Value) : Same v v
  | number {x y : Double} (h : x.signedSteps = y.signedSteps) :
      Same (.number (.finite x)) (.number (.finite y))

/-- Whether statements do for a field what its validation does: they throw its
failure, or set the property to the same value. -/
def Follows (env : List (String × Value) → Env) (field : String) (out : List (String × Value))
    (effect : Option Effect) : Except Failure Json → Prop
  | .error failure => effect = some (.throws (failureValue failure))
  | .ok value => ∃ w, w.Same (.ofJson value) ∧
      effect = some (.next (env (setProperty field w out)))

/-- What is declared inside of a block is gone behind it, and the record that
was written to is not. -/
theorem Follows.leave {env : List (String × Value) → Env} (scope : List (String × Value))
    {field : String} {out : List (String × Value)} {effect : Option Effect}
    {outcome : Except Failure Json}
    (h : Follows (fun out => scope :: env out) field out effect outcome) :
    Follows env field out (Effect.leave <$> effect) outcome := by
  cases outcome with
  | error failure =>
      rw [Follows] at h ⊢
      rw [h]
      rfl
  | ok value =>
      obtain ⟨w, hsame, rfl⟩ := h
      exact ⟨w, hsame, rfl⟩

def outEnv (input : Value) (out : List (String × Value)) : Env :=
  [[("out", .object out), ("input", input)]]

def valueEnv (input v : Value) (out : List (String × Value)) : Env :=
  [("value", v)] :: outEnv input out

section

variable {input v : Value} {out : List (String × Value)}

/-- Storing a value sets the property of the record and leaves all else as it
is, from inside of any block that does not hide the record. -/
theorem run_storeTree {scope : List (String × Value)} (hscope : scope.lookup "out" = none)
    {e : Expr} {w : Value} (he : e.eval (scope :: valueEnv input v out) = some w)
    (field : String) :
    (storeTree field e).run (scope :: valueEnv input v out) =
      some (.next (scope :: valueEnv input v (setProperty field w out))) := by
  have hstore : Env.store? "out" field w (scope :: valueEnv input v out) =
      some (scope :: valueEnv input v (setProperty field w out)) := by
    simp [Env.store?, hscope, valueEnv, outEnv, Env.storeIn?, List.lookup_cons]
  simp only [storeTree, Stmt.run, Expr.eval, he, Option.bind_eq_bind, Option.bind_some, hstore]
  rfl

/-- For a value that is absent, the script stores a null or throws, as the check
does. -/
theorem follows_absentTree (c : Check) :
    Follows (valueEnv input v) c.field out ((Stmt.block [absentTree c]).run (valueEnv input v out))
      c.applyAbsent := by
  apply Follows.leave []
  rw [runAll_singleton]
  unfold absentTree Check.applyAbsent
  by_cases hoptional : c.optional = true
  · rw [if_pos hoptional, if_pos hoptional]
    exact ⟨.null, .refl _, run_storeTree rfl rfl c.field⟩
  · rw [if_neg hoptional, if_neg hoptional]
    exact run_failureTree rfl c.field .missing _

variable {j : Json} {c : Check}

/-- What is stored for a number is the number. -/
theorem same_store {kind : Kind} (hkind : kind = .integer ∨ kind = .number) {x y : Double}
    (hx : (Value.ofJson j).toNumber = .finite x) (hy : j.toNumber = .finite y)
    (hsame : x.signedSteps = y.signedSteps) :
    Value.Same (.number (.finite x)) (.ofJson (kind.store j)) := by
  have hstore : kind.store j = if j.isNumber then j else .ofDouble y := by
    rcases hkind with rfl | rfl <;> simp only [Kind.store, hy]
  have hdouble : Value.Same (.number (.finite x)) (.ofJson (.ofDouble y)) := by
    unfold Json.ofDouble
    split
    next hwhole =>
      rw [Bool.and_eq_true, decide_eq_true_eq] at hwhole
      obtain ⟨z, hz, hsteps⟩ := Double.ofInt?_toInt hwhole.1 hwhole.2
      simp only [Value.ofJson, hz, Option.map_some, Option.getD_some]
      exact .number (hsame.trans hsteps.symm)
    next => exact .number hsame
  rw [hstore]
  by_cases hnumber : j.isNumber = true
  · have hself : Value.ofJson j = .number (Value.ofJson j).toNumber := by
      cases j with
      | whole i => simp only [Value.ofJson, Value.toNumber]
      | double z => simp only [Value.ofJson, Value.toNumber]
      | _ => cases hnumber
    rw [if_pos hnumber, hself, hx]
    exact .refl _
  · rw [if_neg hnumber]
    exact hdouble

/-- Guards and then a statement that stores, as a whole: the first guard that
refuses throws, and otherwise the value is stored. -/
theorem follows_guards {scope : List (String × Value)} {e : Expr} {w : Value}
    (hout : scope.lookup "out" = none) (hclass : scope.lookup "ValidationFailure" = none)
    (hguards : ∀ g ∈ c.guards, (refusalTree g).eval (scope :: valueEnv input v out) =
      some (.boolean (!g.accepts j)))
    (hw : e.eval (scope :: valueEnv input v out) = some w)
    (hsame : w.Same (.ofJson (c.kind.store j))) :
    Follows (fun out => scope :: valueEnv input v out) c.field out
      (Stmt.runAll (scope :: valueEnv input v out)
        (c.guards.map (guardTree c.field) ++ [storeTree c.field e])) (c.applyPresent j) := by
  have hfailure : Env.get? (scope :: valueEnv input v out) "ValidationFailure" = none := by
    rw [Env.get?, List.findSome?_cons, hclass]
    rfl
  rw [runAll_guards hfailure hguards, Check.applyPresent]
  cases c.guards.find? (!·.accepts j) with
  | some g => rfl
  | none => exact ⟨w, hsame, by rw [runAll_singleton]; exact run_storeTree hout hw c.field⟩

/-- A first guard that does not accept the value ends the statements, so the
tests behind it need not make sense for the value. -/
theorem follows_refused {env : Env} {envOf : List (String × Value) → Env} {g : Guard}
    {gs : List Guard} (hc : c.guards = g :: gs)
    (hclass : env.get? "ValidationFailure" = none)
    (hg : (refusalTree g).eval env = some (.boolean true)) (hrefused : g.accepts j = false)
    (rest : List Stmt) :
    Follows envOf c.field out
      (Stmt.runAll env (c.guards.map (guardTree c.field) ++ rest)) (c.applyPresent j) := by
  have hfind : c.guards.find? (!·.accepts j) = some g := by
    rw [hc, List.find?_cons, hrefused]
    rfl
  have hrun := run_guardTree (v := j) hclass (by rw [hg, hrefused]; rfl) c.field
  rw [Check.applyPresent, hfind, hc, List.map_cons, List.cons_append, Stmt.runAll, hrun, hrefused]
  rfl

/-- The statements for a text. -/
theorem follows_textTrees (hkind : c.kind = .text) (hpattern : c.pattern = none)
    (hformat : c.format = none) :
    Follows (fun out => [] :: valueEnv input (.ofJson j) out) c.field out
      (Stmt.runAll ([] :: valueEnv input (.ofJson j) out)
        (c.guards.map (guardTree c.field) ++ [storeTree c.field (.name "value")]))
      (c.applyPresent j) := by
  have hguards : c.guards = c.textGuards := by rw [Check.guards, hkind]
  by_cases htext : ∃ s, j = .text s
  · obtain ⟨s, rfl⟩ := htext
    refine follows_guards rfl rfl ?_ rfl ?_
    · rw [hguards]
      exact fun g hg => eval_refusal_text rfl hpattern hformat hg
    · rw [hkind]
      exact .refl _
  · refine follows_refused hguards rfl ?_ ?_ _
    · cases j with
      | text s => exact absurd ⟨s, rfl⟩ htext
      | _ => rfl
    · cases j with
      | text s => exact absurd ⟨s, rfl⟩ htext
      | _ => rfl

/-- The statements for a number, which is made from the value first. -/
theorem follows_numberTrees (hkind : c.kind = .integer ∨ c.kind = .number) (halike : j.ReadsAlike) :
    Follows (fun out => [("n", .number (Value.ofJson j).toNumber)] ::
        valueEnv input (.ofJson j) out) c.field out
      (Stmt.runAll ([("n", .number (Value.ofJson j).toNumber)] :: valueEnv input (.ofJson j) out)
        (c.guards.map (guardTree c.field) ++ [storeTree c.field (.name "n")]))
      (c.applyPresent j) := by
  have hguards : c.guards = c.numberGuards := by
    rcases hkind with hkind | hkind <;> rw [Check.guards, hkind]
  have hboth := Json.alike_toNumber halike
  -- The two numbers are the same, or the first guard refuses both of them.
  cases hx : (Value.ofJson j).toNumber with
  | finite x =>
      rw [hx] at hboth
      cases hy : j.toNumber with
      | finite y =>
          rw [hy] at hboth
          refine follows_guards rfl rfl ?_ rfl (same_store hkind hx hy hboth)
          rw [hguards]
          exact fun g hg => eval_refusal_number rfl rfl hy hboth hg
      | _ =>
          rw [hy] at hboth
          cases hboth
  | _ =>
      refine follows_refused hguards rfl rfl ?_ _
      rw [hx] at hboth
      cases hy : j.toNumber with
      | finite y =>
          rw [hy] at hboth
          cases hboth
      | _ => simp only [Guard.accepts, hy]

theorem runAll_number (rest : List Stmt) :
    Stmt.runAll ([] :: valueEnv input v out)
        (.constant "n" (.call (.name "Number") [.name "value"]) :: rest) =
      Stmt.runAll ([("n", .number v.toNumber)] :: valueEnv input v out) rest := rfl

theorem follows_presentTrees (hpattern : c.pattern = none) (hformat : c.format = none)
    (halike : c.kind = .integer ∨ c.kind = .number → j.ReadsAlike) :
    Follows (valueEnv input (.ofJson j)) c.field out
      ((Stmt.block (presentTrees c)).run (valueEnv input (.ofJson j) out)) (c.applyPresent j) := by
  cases hkind : c.kind with
  | text =>
      apply Follows.leave []
      simp only [presentTrees, hkind]
      exact follows_textTrees hkind hpattern hformat
  -- The trees bind `n` first, which is out of scope again behind the block.
  | integer =>
      apply Follows.leave [("n", .number (Value.ofJson j).toNumber)]
      simp only [presentTrees, hkind, List.cons_append, runAll_number]
      exact follows_numberTrees (.inl hkind) (halike (.inl hkind))
  | number =>
      apply Follows.leave [("n", .number (Value.ofJson j).toNumber)]
      simp only [presentTrees, hkind, List.cons_append, runAll_number]
      exact follows_numberTrees (.inr hkind) (halike (.inr hkind))
  | boolean =>
      apply Follows.leave []
      simp only [presentTrees, hkind]
      refine follows_guards rfl rfl ?_ rfl ?_
      · simp [Check.guards, hkind]
      · rw [hkind, Kind.store, Value.ofJson, ← Json.toBoolean_ofJson]
        exact .refl _
  | passthrough =>
      apply Follows.leave []
      simp only [presentTrees, hkind]
      refine follows_guards rfl rfl ?_ rfl ?_
      · simp [Check.guards, hkind]
      · rw [hkind]
        exact .refl _

end

theorem lookup_ofMembers (members : Json.Members) (key : String) :
    (Value.ofMembers members).lookup key = (members.lookup key).map Value.ofJson := by
  induction members with
  | nil => rfl
  | cons member members ih =>
      obtain ⟨k, value⟩ := member
      simp only [Value.ofMembers, List.lookup_cons, ih]
      cases key == k <;> rfl

/-- Nothing but null and what is missing counts as absent. -/
theorem eval_absenceTree (input : Value) (out : List (String × Value)) (value : Option Json) :
    absenceTree.eval (valueEnv input ((value.map Value.ofJson).getD .undefined) out) =
      some (.boolean (match value with
        | none | some .null => true
        | some _ => false)) := by
  cases value with
  | none => rfl
  | some j => cases j <;> rfl

/-- The statement of a check names the value of the field, and then does what is
done for an absent or for a present value. -/
theorem run_checkTree (c : Check) (members : Json.Members) (out : List (String × Value)) :
    (checkTree c).run (outEnv (.ofJson (.object members)) out) =
      Effect.leave <$> (Stmt.block (match members.lookup c.field with
        | none | some .null => [absentTree c]
        | some _ => presentTrees c)).run (valueEnv (.ofJson (.object members))
          (((members.lookup c.field).map Value.ofJson).getD .undefined) out) := by
  generalize hinput : Value.ofJson (.object members) = input
  have hvalue : Expr.eval ([] :: outEnv input out) (.index (.name "input") (.string c.field)) =
      some (((members.lookup c.field).map Value.ofJson).getD .undefined) := by
    rw [← lookup_ofMembers, ← hinput]
    rfl
  have hrun : ∀ rest, Stmt.runAll ([] :: outEnv input out)
      (.constant "value" (.index (.name "input") (.string c.field)) :: rest) =
      Stmt.runAll (valueEnv input (((members.lookup c.field).map Value.ofJson).getD .undefined) out)
        rest := by
    intro rest
    rw [Stmt.runAll, Stmt.run, hvalue]
    rfl
  rw [checkTree, Stmt.run, hrun, runAll_singleton, run_condition (eval_absenceTree input out _)]
  cases members.lookup c.field with
  | none => rfl
  | some j => cases j <;> rfl

/-- The statement of a check does what the check does: absent and present values
are told apart alike. -/
theorem follows_checkTree {members : Json.Members} (hpattern : c.pattern = none)
    (hformat : c.format = none)
    (halike : c.ReadsAlike (members.lookup c.field)) (out : List (String × Value)) :
    Follows (outEnv (.ofJson (.object members))) c.field out
      ((checkTree c).run (outEnv (.ofJson (.object members)) out))
      (c.apply (members.lookup c.field)) := by
  rw [run_checkTree]
  apply Follows.leave [("value", ((members.lookup c.field).map Value.ofJson).getD .undefined)]
  cases hlookup : members.lookup c.field with
  | none => exact follows_absentTree c
  | some j =>
      cases j with
      | null => exact follows_absentTree c
      | _ => exact follows_presentTrees hpattern hformat fun hkind => halike hkind _ hlookup

/-! ## Records -/

/-- Whether the properties of an object are a record. -/
def SameRecord (properties : List (String × Value)) (record : Json.Members) : Prop :=
  ∀ key, Option.Rel Value.Same (properties.lookup key) ((record.lookup key).map Value.ofJson)

theorem lookup_setProperty (key k : String) (value : Value) (properties : List (String × Value)) :
    (setProperty key value properties).lookup k =
      if k = key then some value else properties.lookup k := by
  induction properties with
  | nil => grind [setProperty]
  | cons property properties ih => grind [setProperty]

/-- Setting one property on both sides keeps an object and a record the same. -/
theorem SameRecord.set {properties : List (String × Value)} {record : Json.Members}
    (h : SameRecord properties record) {w : Value} {value : Json} (hw : w.Same (.ofJson value))
    (key : String) :
    SameRecord (setProperty key w properties) (Json.Members.insert key value record) := by
  intro key'
  rw [lookup_setProperty, Json.Members.lookup_insert]
  split
  · exact .some hw
  · exact h key'

/-- Whether a call of a script ends like a validation: both fail with the same
field and message, or both give the same record. -/
inductive Agrees : Option Result → Except Failure Json.Members → Prop
  | failed (failure : Failure) : Agrees (some (.thrown (failureValue failure))) (.error failure)
  | stored {properties : List (String × Value)} {record : Json.Members}
      (h : SameRecord properties record) :
      Agrees (some (.returned (.object properties))) (.ok record)

def Effect.result : Effect → Result
  | .next _ => .returned .undefined
  | .returns value => .returned value
  | .throws value => .thrown value

theorem call_eq (f : Function) (argument : Value) :
    f.call argument = (Stmt.runAll [[(f.parameter, argument)]] f.body).map Effect.result := by
  rw [Function.call]
  cases Stmt.runAll [[(f.parameter, argument)]] f.body with
  | none => rfl
  | some effect => cases effect <;> rfl

/-- The statements of the checks build the record that the validation builds,
field by field, up to the first failure. -/
theorem agrees_checkTrees {members : Json.Members} {checks : List Check}
    (hplain : ∀ c ∈ checks, c.pattern = none ∧ c.format = none)
    (halike : ∀ c ∈ checks, c.ReadsAlike (members.lookup c.field))
    {properties : List (String × Value)} {record : Json.Members}
    (hsame : SameRecord properties record) :
    Agrees ((Stmt.runAll (outEnv (.ofJson (.object members)) properties)
        (checks.map checkTree ++ [.returning (.name "out")])).map Effect.result)
      (validateMembers members record checks) := by
  -- The invariant is that the properties set so far are the record so far.
  induction checks generalizing properties record with
  | nil => exact .stored hsame
  | cons c checks ih =>
      obtain ⟨⟨hpattern, hformat⟩, hplain⟩ := List.forall_mem_cons.mp hplain
      obtain ⟨hc, halike⟩ := List.forall_mem_cons.mp halike
      have hfollows := follows_checkTree hpattern hformat hc properties
      rw [List.map_cons, List.cons_append, Stmt.runAll, validateMembers]
      cases houtcome : c.apply (members.lookup c.field) with
      | error failure =>
          rw [houtcome, Follows] at hfollows
          rw [hfollows]
          exact .failed failure
      | ok value =>
          rw [houtcome] at hfollows
          obtain ⟨w, hw, hrun⟩ := hfollows
          rw [hrun]
          exact ih hplain halike (hsame.set hw c.field)

/-- The script of a validator throws for what is no object, as the validation
fails, and otherwise runs its checks. -/
theorem agrees_validatorTree {schema : String} {checks : List Check} {input : Json}
    (hplain : ∀ c ∈ checks, c.pattern = none ∧ c.format = none)
    (halike : ∀ members, input = .object members →
      ∀ c ∈ checks, c.ReadsAlike (members.lookup c.field)) :
    Agrees ((validatorTree schema checks).call (.ofJson input)) (validate checks input) := by
  rw [call_eq]
  cases input with
  | object members => exact agrees_checkTrees hplain (halike members rfl) fun _ => .none
  | _ => exact .failed notAnObject

/-! ## Numbers of scripts only -/

def anyNumber (field : String) (optional : Bool) : Check where
  field := field
  optional := optional
  kind := .number
  min := none
  max := none
  allowed := none
  pattern := none
  format := none

section

variable (field : String) (optional : Bool) {j : Json} {x : Double}

theorem lookup_anyNumber :
    List.lookup (anyNumber field optional).field [(field, j)] = some j := by
  simp [anyNumber]

/-- What a script reads as a number is stored as that number, whatever form the
value has. -/
theorem run_checkTree_anyNumber (hnull : j ≠ .null)
    (hx : (Value.ofJson j).toNumber = .finite x) :
    (checkTree (anyNumber field optional)).run (outEnv (.ofJson (.object [(field, j)])) []) =
      some (.next (outEnv (.ofJson (.object [(field, j)])) [(field, .number (.finite x))])) := by
  generalize hinput : Value.ofJson (.object [(field, j)]) = input
  -- To the guard of the script the value is the number that it reads.
  have hguards : Stmt.runAll ([("n", .number (.finite x))] :: valueEnv input (.ofJson j) [])
      ([.isNumber].map (guardTree field) ++ [storeTree field (.name "n")]) =
      some (.next ([("n", .number (.finite x))] ::
        valueEnv input (.ofJson j) [(field, .number (.finite x))])) := by
    rw [runAll_guards (v := .double x) rfl _ field]
    · exact (runAll_singleton _ _).trans (run_storeTree rfl rfl field)
    · intro g hg
      exact eval_refusal_number rfl rfl rfl rfl (c := anyNumber field optional) hg
  have hpresent : (Stmt.block (presentTrees (anyNumber field optional))).run
      (valueEnv input (.ofJson j) []) =
      some (.next (valueEnv input (.ofJson j) [(field, .number (.finite x))])) := by
    rw [← hx] at hguards ⊢
    rw [Stmt.run]
    exact congrArg (Effect.leave <$> ·) hguards
  rw [← hinput, run_checkTree, hinput, lookup_anyNumber]
  cases j with
  | null => exact absurd rfl hnull
  | _ => exact congrArg (Effect.leave <$> ·) hpresent

theorem apply_anyNumber (hy : ∀ y, j.toNumber ≠ .finite y) :
    (anyNumber field optional).apply (some j) =
      .error ⟨some field, .notNumber, Guard.isNumber.message field⟩ := by
  have hpresent : (anyNumber field optional).apply (some j) =
      (anyNumber field optional).applyPresent j := by
    cases j with
    | null => exact absurd rfl (hy _)
    | _ => rfl
  have hguards : (anyNumber field optional).guards = [.isNumber] := rfl
  have hrefused : Guard.isNumber.accepts j = false := by
    cases hread : j.toNumber with
    | finite y => exact absurd hread (hy y)
    | _ => simp only [Guard.accepts, hread]
  rw [hpresent, Check.applyPresent, hguards, List.find?_cons, hrefused]
  rfl

/-- Scripts take as a number what the validation does not: the text of an array,
and digits in another base. -/
theorem validator_accepts_more {schema : String} (hname : Text.IsWord schema)
    (hx : (Value.ofJson j).toNumber = .finite x) (hy : ∀ y, j.toNumber ≠ .finite y) :
    let input : Json := .object [(field, j)]
    call (Code.render (Server.validator schema [anyNumber field optional])) (.ofJson input) =
        some (.returned (.object [(field, .number (.finite x))])) ∧
      validate [anyNumber field optional] input =
        .error ⟨some field, .notNumber, Guard.isNumber.message field⟩ := by
  intro input
  have hnull : j ≠ .null := by
    rintro rfl
    exact hy _ rfl
  have hbounded : ∀ c ∈ [anyNumber field optional], c.Bounded := by
    intro c hc z hz
    obtain rfl := List.mem_singleton.mp hc
    rcases hz with hz | hz <;> cases hz
  constructor
  · have hbody : Stmt.runAll (outEnv (.ofJson input) [])
        [checkTree (anyNumber field optional), .returning (.name "out")] =
        some (.returns (.object [(field, .number (.finite x))])) := by
      rw [Stmt.runAll, run_checkTree_anyNumber field optional hnull hx]
      rfl
    rw [call, read_validator hname hbounded]
    exact (call_eq _ _).trans (congrArg (Option.map Effect.result) hbody)
  · simp only [input, validate, validateMembers, lookup_anyNumber,
      apply_anyNumber field optional hy]

end

/-- An empty array stands for zero in scripts, and for no number in the
validation. So the two do not agree on every input. -/
theorem validator_disagrees_empty_array :
    ¬ Agrees (call (Code.render (Server.validator "A" [anyNumber "n" false]))
        (.ofJson (.object [("n", .array [])])))
      (validate [anyNumber "n" false] (.object [("n", .array [])])) := by
  have hname : Text.IsWord "A" := by
    unfold Text.IsWord
    decide +kernel
  have hscript : (Value.ofJson (.array [])).toNumber = .finite (.ofNat 0) := by decide +kernel
  have hnone : ∀ y, (Json.array []).toNumber ≠ .finite y := by simp [Json.toNumber]
  obtain ⟨hcall, hvalidate⟩ := validator_accepts_more "n" false hname hscript hnone
  rw [hcall, hvalidate]
  rintro ⟨⟩

end Script

/-! ## Schemas -/

theorem Field.check_bounds {schema : String} {f : Field} {c : Check}
    (h : f.check schema = .ok c) : c.min = f.number? "min" ∧ c.max = f.number? "max" := by
  simp only [Field.check] at h
  split at h
  · simp only [Except.bind_eq_ok_iff] at h
    obtain ⟨pattern, -, format, -, h⟩ := h
    cases h
    exact ⟨rfl, rfl⟩
  · cases h
    exact ⟨rfl, rfl⟩

/-- The bounds of the checks of a schema that was read are doubles, so that
their numerals stand for them exactly. -/
theorem Schema.WellFormed.bounded {s : Schema} (hs : s.WellFormed) {checks : List Check}
    (hchecks : s.checks = .ok checks) : ∀ c ∈ checks, c.Bounded := by
  intro c hc x hx
  obtain ⟨f, hf, hcheck⟩ := List.exists_of_mem_mapM hchecks hc
  obtain ⟨hmin, hmax⟩ := Field.check_bounds hcheck
  rw [hmin, hmax] at hx
  rcases hx with hx | hx
  · exact (hs.rounded f hf).number? hx
  · exact (hs.rounded f hf).number? hx

/-- The script of the validator of a schema does what the validation does, for
every input: it throws the failure of the validation, or returns its record. The
schema must have no patterns and no formats, and the values of its numbers must
not be among those that scripts read in their own way. -/
theorem validator_agrees {s : Schema} (hs : s.WellFormed) {checks : List Check}
    (hchecks : s.checks = .ok checks) (hplain : ∀ c ∈ checks, c.pattern = none ∧ c.format = none)
    {input : Json} (halike : ∀ members, input = .object members →
      ∀ c ∈ checks, c.ReadsAlike (members.lookup c.field)) :
    Script.Agrees (Script.call (Code.render (Server.validator s.name checks)) (.ofJson input))
      (validate checks input) := by
  rw [Script.call, Script.read_validator hs.name (hs.bounded hchecks)]
  exact Script.agrees_validatorTree hplain halike

/-- A number may be given as a text, with blanks around it. -/
theorem validator_agrees_numeral :
    let source := "data Item { label: String(min: 2)  price: Number(max: 10)? }"
    let checks : List Check :=
      [⟨"label", false, .text, some (.ofNat 2), none, none, none, none⟩,
        ⟨"price", true, .number, none, some (.ofNat 10), none, none, none⟩]
    let input : Json := .object [("label", .text "pear"), ("price", .text " 2.5 ")]
    ∃ s, Tree.ofSource source = .ok { schemas := [s] } ∧ s.checks = .ok checks ∧
      Script.Agrees (Script.call (Code.render (Server.validator s.name checks)) (.ofJson input))
        (validate checks input) := by
  intro source checks input
  obtain ⟨s, hsource, hchecks⟩ :
      ∃ s, Tree.ofSource source = .ok { schemas := [s] } ∧ s.checks = .ok checks :=
    ⟨⟨"Item", [⟨"label", "String", false, [("min", .number (.ofNat 2))]⟩,
      ⟨"price", "Number", true, [("max", .number (.ofNat 10))]⟩], 1⟩,
      by decide +kernel, by decide +kernel⟩
  have hs := Parser.wellFormed_of_ofSource hsource s (List.mem_singleton_self s)
  refine ⟨s, hsource, hchecks, validator_agrees hs hchecks ?_ ?_⟩
  · simp [checks]
  · intro members hmembers c hc hkind j hj
    obtain rfl := Json.object.inj hmembers
    rcases List.mem_cons.mp hc with rfl | hc
    · rcases hkind with h | h <;> cases h
    · obtain rfl := List.mem_singleton.mp hc
      obtain rfl : .text " 2.5 " = j := Option.some.inj hj
      exact ⟨by decide +kernel, .inl (by decide +kernel)⟩

end BlockLang
