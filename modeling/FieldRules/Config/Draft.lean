import FieldRules.Bound
import FieldRules.Chain

/-!
# Types that are being configured

A `Draft` is a tree that follows the type of a value. Its nodes have slots for the parameters of
tags, which stay texts until the tree is complete. All slots of a tree are empty at first
(`Draft.leaf`).
-/

namespace FieldRules

/-- What a leaf value is. -/
inductive ScalarKind where
  | integer
  | float
  | string
  | byte
  | bool
deriving DecidableEq, Repr

/-- The kind of a leaf, as messages name it. -/
def ScalarKind.describe : ScalarKind → String
  | integer => "integer"
  | float => "float"
  | string => "string"
  | byte => "byte"
  | bool => "bool"

/-- How the value of a wrapper holds the wrapped value. -/
inductive WrapperMode where
  /-- The value is that of the wrapped type. -/
  | transparent
  /-- The value is a struct with the wrapped value as its only field. -/
  | newtype
deriving DecidableEq, Repr

/-- How code selects a field of a struct. -/
inductive Member where
  | named (name : Ident)
  | index (n : Nat)
deriving DecidableEq, Repr

/-- A field of a struct, with a description of its type. -/
structure Field (α : Type) where
  member : Member
  /-- The field in messages. -/
  name : String
  node : α

/-- A type that is being configured. A struct is checked field by field (`inline`) or checks itself
(`delegated`). -/
inductive Draft where
  /-- A leaf. The limits are those of a number or of a text's length. -/
  | scalar (kind : ScalarKind) (limits : Limits String) (func : Option String)
  /-- An optional value, and which of `nullable` and `not_null` it is tagged with. -/
  | optional (nullable notNull : Bool) (inner : Draft)
  /-- A sequence or set. -/
  | array (size : Limits String) (item : Draft)
  | map (size : Limits String) (key value : Draft)
  | inline (fields : List (Field Draft)) (func : Option String)
  | delegated (func : Option String)
  /-- A named wrapper of another type. -/
  | wrapper (ty : Ty) (mode : WrapperMode) (inner : Draft) (func : Option String)
  /-- A trait object; `indirect` if it is behind a pointer. -/
  | interface (indirect : Bool) (func : Option String)
  | skip

namespace Draft

/-- A leaf without tags. -/
def leaf (kind : ScalarKind) : Draft := .scalar kind .none none

/-- The description of a node in messages. -/
def describe : Draft → String
  | scalar kind _ _ => kind.describe
  | optional .. => "optional"
  | array .. => "array"
  | map .. => "map"
  | inline .. => "struct"
  | delegated _ => "struct"
  | wrapper .. => "alias"
  | interface .. => "interface"
  | skip => "skipped type"

end Draft

end FieldRules
