import FieldRules.Emit.Statement

/-!
# Emitting checks

`Plan.emit` gives the statements that check a value against a plan. Code that checks nothing is left
out, with the loops and patterns around it; the names for these are minted all the same. Every part
of the code that names a symbol records it in the `Scope`, so that exactly these are imported.

`Plan.visits` lists the nodes of a plan with their paths, in the order in which code is emitted for
them.
-/

namespace FieldRules

/-- A set of symbols. -/
structure Symbols where
  validate : Bool
  validationError : Bool
  violation : Bool
deriving DecidableEq, Repr

namespace Symbols

def none : Symbols := ⟨false, false, false⟩

def contains (s : Symbols) : Symbol → Bool
  | .validate => s.validate
  | .validationError => s.validationError
  | .violation => s.violation

/-- The set with one more symbol. -/
def insert (s : Symbols) : Symbol → Symbols
  | .validate => { s with validate := true }
  | .validationError => { s with validationError := true }
  | .violation => { s with violation := true }

/-- The symbols of the set, in the order of imports. -/
def toList (s : Symbols) : List Symbol := Symbol.all.filter s.contains

theorem contains_insert (s : Symbols) (a b : Symbol) :
    (s.insert a).contains b = (decide (a = b) || s.contains b) := by
  cases a <;> cases b <;> simp [insert, contains]

theorem mem_toList {s : Symbols} {a : Symbol} : a ∈ s.toList ↔ s.contains a = true := by
  cases a <;> simp [toList, Symbol.all]

end Symbols

/-- What has been named so far in a routine: the names it binds and the symbols it uses. -/
structure Scope where
  names : Names
  symbols : Symbols

namespace Scope

/-- The start of a routine. -/
def empty : Scope := ⟨[], .none⟩

/-- The scope with one more symbol. -/
def require (s : Scope) (a : Symbol) : Scope := { s with symbols := s.symbols.insert a }

/-- The scope after code that returns a failure. -/
def requireFailure (s : Scope) : Scope := (s.require .validationError).require .violation

end Scope

/-- How a validator that is a method reaches the value. -/
inductive Receiver where
  /-- The method is called on the value. -/
  | value
  /-- The method of the given type takes the value. -/
  | type (ty : Ty)

def Validator.call (reach : Reach) (receiver : Receiver) : Validator → Call
  | method name =>
    match receiver with
    | .value => .method name reach
    | .type ty => .associated ty name reach
  | function path => .function path reach

/-- The calls of a chain, in order. -/
def Chain.emit (chain : Chain) (c : Context) (receiver : Receiver) (s : Scope) :
    List Statement × Scope :=
  (chain.map fun v => .call (v.call c.reach receiver) c.field,
    if chain.isEmpty then s else s.require .validationError)

/-- The guards of two limits: of the lower one, then of the upper one. -/
def emitLimits {α : Type} (limits : Limits (Bound α)) (test : Side → α → Test)
    (lower upper : Bound α → Violation) (field : String) (s : Scope) : List Statement × Scope :=
  let low := limits.lower.toList.map fun b => .guard (test .below b.value) ⟨field, lower b⟩
  let high := limits.upper.toList.map fun b => .guard (test .above b.value) ⟨field, upper b⟩
  (low ++ high, if limits.isNone then s else s.requireFailure)

/-- The check of a leaf. -/
def ScalarCheck.emit (check : ScalarCheck) (c : Context) (s : Scope) : List Statement × Scope :=
  match check with
  | .integer range =>
    let (body, s) := emitLimits range .wide (.belowMinimum ·.text) (.aboveMaximum ·.text) c.field s
    (if body.isEmpty then [] else [.widen c.reach body], s)
  | .float range =>
    emitLimits range (.float · c.reach ·) (.belowMinimum ·.text) (.aboveMaximum ·.text) c.field s
  | .string length =>
    let (body, s) := emitLimits length .length (.tooShort ·.value) (.tooLong ·.value) c.field s
    (if body.isEmpty then [] else [.measure c.reach body], s)
  | .byte => ([], s)
  | .bool => ([], s)

/-- The guards of a collection's size. A least size of zero needs none. -/
def emitSize (size : Limits (Bound Nat)) (c : Context) (s : Scope) : List Statement × Scope :=
  emitLimits { size with lower := size.lower.filter (0 < ·.value) } (.size · c.reach ·)
    (.tooFewItems ·.value) (.tooManyItems ·.value) c.field s

namespace Plan

/-- The context of a wrapped value. -/
def wrapped (c : Context) : WrapperMode → Context
  | .transparent => c
  | .newtype => c.newtype

mutual

/-- The statements that check the value in the given context. -/
def emit : Plan → Context → Scope → List Statement × Scope
  | .scalar check chain, c, s =>
    let (own, s) := check.emit c s
    let (calls, s) := chain.emit c .value s
    (own ++ calls, s)
  | .optional nullable inner, c, s =>
    let (name, c', names) := c.present s.names
    let (body, s) := inner.emit c' { s with names }
    if nullable then (if body.isEmpty then [] else [.ifPresent name c.reach body], s)
    else
      let failure : Failure := ⟨c.field, .missing⟩
      (if body.isEmpty then [.guard (.absent c.reach) failure]
        else [.matchPresent name c.reach body failure], s.requireFailure)
  | .array size item, c, s =>
    let (guards, s) := emitSize size c s
    let (name, c', names) := c.item s.names
    let (body, s) := item.emit c' { s with names }
    (guards ++ if body.isEmpty then [] else [.forEach name c.reach body], s)
  | .map size k v, c, s =>
    let (guards, s) := emitSize size c s
    let (keyName, ck, names) := c.mapKey s.names
    let (valueName, cv, names) := c.mapValue names
    let (keyBody, s) := k.emit ck { s with names }
    let (valueBody, s) := v.emit cv s
    (guards ++ if keyBody.isEmpty && valueBody.isEmpty then [] else
      [.forEntries (if keyBody.isEmpty then none else some keyName)
        (if valueBody.isEmpty then none else some valueName) c.reach (keyBody ++ valueBody)], s)
  | .inline fields chain, c, s =>
    let (checks, s) := emitFields fields c s
    let (calls, s) := chain.emit c .value s
    (checks ++ calls, s)
  | .delegated chain, c, s =>
    let (calls, s) := chain.emit c .value (s.require .validate)
    (.delegate c.reach c.field :: calls, s)
  | .wrapper ty mode inner chain, c, s =>
    let (checks, s) := inner.emit (wrapped c mode) s
    let (calls, s) := chain.emit c (.type ty) s
    (checks ++ calls, s)
  | .interface indirect chain, c, s =>
    chain.emit (if indirect then c.pointee else c) .value s
  | .skip, _, s => ([], s)

/-- The statements that check the fields of a struct, in order. -/
def emitFields : List (Field Plan) → Context → Scope → List Statement × Scope
  | [], _, s => ([], s)
  | ⟨member, name, plan⟩ :: rest, c, s =>
    let (first, s) := plan.emit (c.member member name) s
    let (others, s) := emitFields rest c s
    (first ++ others, s)

end

/-- A node of a plan that code is emitted for. -/
structure Visit where
  field : String
  /-- The number of names bound on the way to it. -/
  depth : Nat
deriving DecidableEq, Repr

mutual

/-- The nodes of a plan, in the order of emission. Only the path and depth of the context matter. -/
def visits : Plan → String → Nat → List Visit
  | .scalar .., path, depth => [⟨path, depth⟩]
  | .optional _ inner, path, depth => ⟨path, depth⟩ :: inner.visits path (depth + 1)
  | .array _ item, path, depth => ⟨path, depth⟩ :: item.visits (path ++ "[]") (depth + 1)
  | .map _ k v, path, depth =>
    ⟨path, depth⟩ :: (k.visits (path ++ "[key]") (depth + 1) ++
      v.visits (path ++ "[value]") (depth + 1))
  | .inline fields _, path, depth => ⟨path, depth⟩ :: visitsFields fields path depth
  | .delegated _, path, depth => [⟨path, depth⟩]
  | .wrapper _ _ inner _, path, depth => ⟨path, depth⟩ :: inner.visits path depth
  | .interface .., path, depth => [⟨path, depth⟩]
  | .skip, path, depth => [⟨path, depth⟩]

/-- The nodes of the fields of a struct. -/
def visitsFields : List (Field Plan) → String → Nat → List Visit
  | [], _, _ => []
  | ⟨_, name, plan⟩ :: rest, path, depth =>
    plan.visits (Context.join path name) depth ++ visitsFields rest path depth

end

end Plan

end FieldRules
