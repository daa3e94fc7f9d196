import FieldRules.Emit.Checks
import FieldRules.Run.Outcome
import FieldRules.Run.Value

/-!
# Running generated code

`Statement.run` and `runAll` say what statements do. What generated code calls but does not define,
the custom validators and the validation of structs that check themselves, is given by a `World`.
-/

namespace FieldRules

/-- The code that generated code calls: custom validators, and `validate` for values that check
themselves. -/
structure World where
  method : Ident → Value → Outcome
  associated : Ty → Ident → Value → Outcome
  function : Path → Value → Outcome
  validate : Value → Outcome

/-- The values of the names in a piece of generated code. -/
structure Env where
  /-- The value of the expression that the code starts from. -/
  start : Value
  /-- The values that loops and patterns have bound, innermost first. -/
  bound : List (String × Value)
  /-- The widened integer; none if it does not fit. -/
  wide : Option Int
  length : Nat

namespace Env

/-- The start of a piece of code. -/
def ofStart (v : Value) : Env := ⟨v, [], none, 0⟩

/-- The environment with one more name. -/
def bind (name : String) (v : Value) (env : Env) : Env :=
  { env with bound := (name, v) :: env.bound }

/-- The environment with a part of an entry, which may have no name. -/
def bindPart (name : Option String) (v : Value) (env : Env) : Env :=
  match name with
  | some n => env.bind n v
  | none => env

end Env

/-- The value that an expression reaches. -/
def Reach.eval (env : Env) : Reach → Value
  | given _ => env.start
  | binding name => (env.bound.lookup name).getD .unit
  | member base field => (base.eval env).member field
  | pointee base => (base.eval env).pointee

/-- An integer widened to 128 bits, if it fits. -/
def widen (n : Int) : Option Int :=
  if Bound.leastInteger ≤ n ∧ n ≤ Bound.greatestInteger then some n else none

/-- Whether a floating-point value is on the wrong side of a limit, which takes the format of the
value. -/
def Side.exceeds (side : Side) (x : Format × Floating) (limit : Floating) : Bool :=
  let l := limit.literalIn x.1
  match side with
  | below => x.2.lt l
  | above => l.lt x.2

/-- Whether a number is on the wrong side of a limit. -/
def Side.exceedsNat (side : Side) (n limit : Nat) : Bool :=
  match side with
  | below => n < limit
  | above => limit < n

def Test.holds (env : Env) : Test → Bool
  | wide .below limit => env.wide.any (· < limit)
  | wide .above limit => env.wide.all (limit < ·)
  | float side value limit => side.exceeds (value.eval env).toFloating limit
  | length side limit => side.exceedsNat env.length limit
  | size side value limit => side.exceedsNat (value.eval env).size limit
  | absent value => (value.eval env).inside?.isNone

def Call.run (w : World) (env : Env) : Call → Outcome
  | method name value => w.method name (value.eval env)
  | associated ty name value => w.associated ty name (value.eval env)
  | function path value => w.function path (value.eval env)

mutual

def Statement.run (w : World) : Statement → Env → Outcome
  | .guard test failure, env => .failIf (test.holds env) failure
  | .widen value body, env => runAll w body { env with wide := widen (value.eval env).toInt }
  | .measure value body, env => runAll w body { env with length := (value.eval env).length }
  | .forEach item value body, env =>
    Outcome.forEach (fun v => runAll w body (env.bind item v)) (value.eval env).items
  | .forEntries key val value body, env =>
    Outcome.forEach (fun e => runAll w body ((env.bindPart key e.1).bindPart val e.2))
      (value.eval env).entries
  | .ifPresent inner value body, env =>
    match (value.eval env).inside? with
    | some v => runAll w body (env.bind inner v)
    | none => .pass
  | .matchPresent inner value body failure, env =>
    match (value.eval env).inside? with
    | some v => runAll w body (env.bind inner v)
    | none => .fail failure
  | .delegate value field, env => (w.validate (value.eval env)).under field
  | .call call field, env => (call.run w env).under field

/-- What statements do, one after the other. -/
def runAll (w : World) : List Statement → Env → Outcome
  | [], _ => .pass
  | s :: ss, env =>
    let first := s.run w env
    match first.failure with
    | some _ => first
    | none => first.andThen (runAll w ss env)

end

theorem runAll_cons (w : World) (s : Statement) (ss : List Statement) (env : Env) :
    runAll w (s :: ss) env = (s.run w env).andThen (runAll w ss env) := by
  rw [runAll]
  cases h : (s.run w env).failure <;> simp [Outcome.andThen, h]

theorem runAll_append (w : World) (ss ts : List Statement) (env : Env) :
    runAll w (ss ++ ts) env = (runAll w ss env).andThen (runAll w ts env) := by
  induction ss with
  | nil => rw [List.nil_append, runAll, Outcome.pass_andThen]
  | cons s ss ih => rw [List.cons_append, runAll_cons, ih, runAll_cons, Outcome.andThen_assoc]

/-- What the code of a plan does with a value. -/
def Plan.run (w : World) (plan : Plan) (v : Value) : Outcome :=
  runAll w (plan.emit .root .empty).1 (.ofStart v)

end FieldRules
