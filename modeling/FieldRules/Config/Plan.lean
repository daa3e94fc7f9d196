import FieldRules.Config.Draft

/-!
# Plans

A `Plan` is a tree whose slots have been read: bounds are numbers and chains are lists of
validators. `Draft.freeze` makes a plan of a configured tree, or gives the first inconsistency. A
node is judged before its parts, lower bounds before upper ones, the keys of a map before its values
and the fields of a struct in their order; only the chains of structs and wrappers come after the
parts.
-/

namespace FieldRules

/-- The checks of a leaf value. Bytes and truth values have none. -/
inductive ScalarCheck where
  | integer (range : Limits (Bound Int))
  | float (range : Limits (Bound Floating))
  | string (length : Limits (Bound Nat))
  | byte
  | bool

def ScalarCheck.kind : ScalarCheck → ScalarKind
  | integer _ => .integer
  | float _ => .float
  | string _ => .string
  | byte => .byte
  | bool => .bool

/-- A type whose configuration is complete, node by node as in `Draft`. -/
inductive Plan where
  | scalar (check : ScalarCheck) (chain : Chain)
  | optional (nullable : Bool) (inner : Plan)
  | array (size : Limits (Bound Nat)) (item : Plan)
  | map (size : Limits (Bound Nat)) (key value : Plan)
  | inline (fields : List (Field Plan)) (chain : Chain)
  | delegated (chain : Chain)
  | wrapper (ty : Ty) (mode : WrapperMode) (inner : Plan) (chain : Chain)
  | interface (indirect : Bool) (chain : Chain)
  | skip

namespace Draft

/-- The limits of a number of elements or characters. -/
def freezeCount (lowerKey upperKey : Key) (slots : Limits String) :
    Except ConfigError (Limits (Bound Nat)) :=
  Limits.read Bound.count (· < ·) lowerKey upperKey slots

/-- The check of a leaf. -/
def freezeScalar (slots : Limits String) : ScalarKind → Except ConfigError ScalarCheck
  | .integer => (Limits.read Bound.integer (· < ·) .min .max slots).map .integer
  | .float => (Limits.read Bound.float Floating.lt .min .max slots).map .float
  | .string => (freezeCount .minLen .maxLen slots).map .string
  | .byte => .ok .byte
  | .bool => .ok .bool

mutual

/-- The plan of a configured tree. -/
def freeze : Draft → Except ConfigError Plan
  | .scalar kind limits func => do
    let check ← freezeScalar limits kind
    let chain ← Chain.ofSlot func
    return .scalar check chain
  | .optional nullable notNull inner => do
    if nullable && notNull then throw .conflictingNullability
    let inner ← inner.freeze
    return .optional nullable inner
  | .array size item => do
    let size ← freezeCount .minItems .maxItems size
    let item ← item.freeze.mapError (.nested .item)
    return .array size item
  | .map size k v => do
    let size ← freezeCount .minItems .maxItems size
    let k ← k.freeze.mapError (.nested .key)
    let v ← v.freeze.mapError (.nested .value)
    return .map size k v
  | .inline fields func => do
    let fields ← freezeFields fields
    let chain ← Chain.ofSlot func
    return .inline fields chain
  | .delegated func => do
    let chain ← Chain.ofSlot func
    return .delegated chain
  | .wrapper ty mode inner func => do
    let inner ← inner.freeze
    let chain ← Chain.ofSlot func
    return .wrapper ty mode inner chain
  | .interface indirect func => do
    let chain ← Chain.ofSlot func
    return .interface indirect chain
  | .skip => .ok .skip

/-- The plans of a struct's fields. -/
def freezeFields : List (Field Draft) → Except ConfigError (List (Field Plan))
  | [] => .ok []
  | ⟨member, name, node⟩ :: rest => do
    let plan ← node.freeze.mapError (.field name)
    let plans ← freezeFields rest
    return ⟨member, name, plan⟩ :: plans

end

end Draft

end FieldRules
