import FieldRules.Run.Execute

/-!
# What a plan means

`Plan.check` says directly, without generated code, which check of a plan fails first for a value. A
leaf is checked for its lower limit, its upper limit and then by its validators; a collection for
its size and then element by element, a map's key before its value; an absent value is missing
unless it may be absent; a struct is checked field by field and then by its validators.
-/

namespace FieldRules

/-- The check of two limits: of the lower one, then of the upper one. -/
def Limits.check {α : Type} (limits : Limits (Bound α)) (exceeds : Side → α → Bool)
    (lower upper : Bound α → Violation) (path : String) : Outcome :=
  let low : Outcome := match limits.lower with
    | some b => .failIf (exceeds .below b.value) ⟨path, lower b⟩
    | .none => .pass
  let high : Outcome := match limits.upper with
    | some b => .failIf (exceeds .above b.value) ⟨path, upper b⟩
    | .none => .pass
  low.andThen high

/-- Whether an integer is on the wrong side of a limit. -/
def Side.exceedsInt (side : Side) (n limit : Int) : Bool :=
  match side with
  | below => n < limit
  | above => limit < n

def ScalarCheck.check (v : Value) (path : String) : ScalarCheck → Outcome
  | integer range =>
    range.check (·.exceedsInt v.toInt) (.belowMinimum ·.text) (.aboveMaximum ·.text) path
  | float range =>
    range.check (·.exceeds v.toFloating) (.belowMinimum ·.text) (.aboveMaximum ·.text) path
  | string length =>
    length.check (·.exceedsNat v.length) (.tooShort ·.value) (.tooLong ·.value) path
  | byte => .pass
  | bool => .pass

/-- The check of a collection's size. -/
def checkSize (size : Limits (Bound Nat)) (v : Value) (path : String) : Outcome :=
  size.check (·.exceedsNat v.size) (.tooFewItems ·.value) (.tooManyItems ·.value) path

def Validator.check (w : World) (receiver : Receiver) (v : Value) : Validator → Outcome
  | method name =>
    match receiver with
    | .value => w.method name v
    | .type ty => w.associated ty name v
  | function path => w.function path v

/-- What the validators of a chain do with a value, at the given path. -/
def Chain.check (chain : Chain) (w : World) (receiver : Receiver) (v : Value) (path : String) :
    Outcome :=
  Outcome.forEach (fun c => (c.check w receiver v).under path) chain

namespace Plan

/-- The value that a wrapper holds. -/
def unwrap (v : Value) : WrapperMode → Value
  | .transparent => v
  | .newtype => v.member (.index 0)

mutual

/-- What the checks of a plan make of a value at the given path. -/
def check (w : World) : Plan → Value → String → Outcome
  | .scalar own chain, v, path => (own.check v path).andThen (chain.check w .value v path)
  | .optional nullable inner, v, path =>
    match v.inside? with
    | some u => inner.check w u path
    | none => .failIf (!nullable) ⟨path, .missing⟩
  | .array size item, v, path =>
    (checkSize size v path).andThen
      (Outcome.forEach (fun u => item.check w u (path ++ "[]")) v.items)
  | .map size k val, v, path =>
    (checkSize size v path).andThen
      (Outcome.forEach (fun e => (k.check w e.1 (path ++ "[key]")).andThen
        (val.check w e.2 (path ++ "[value]"))) v.entries)
  | .inline fields chain, v, path =>
    (checkFields w fields v path).andThen (chain.check w .value v path)
  | .delegated chain, v, path =>
    ((w.validate v).under path).andThen (chain.check w .value v path)
  | .wrapper ty mode inner chain, v, path =>
    (inner.check w (unwrap v mode) path).andThen (chain.check w (.type ty) v path)
  | .interface indirect chain, v, path =>
    chain.check w .value (if indirect then v.pointee else v) path
  | .skip, _, _ => .pass

/-- What the checks of a struct's fields make of it. -/
def checkFields (w : World) : List (Field Plan) → Value → String → Outcome
  | [], _, _ => .pass
  | ⟨member, name, plan⟩ :: rest, v, path =>
    (plan.check w (v.member member) (Context.join path name)).andThen (checkFields w rest v path)

end

end Plan

end FieldRules
