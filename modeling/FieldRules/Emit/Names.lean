import FieldRules.Source.Type
import FieldRules.Config.Draft

/-!
# Names in generated code

Generated code binds names in loops and patterns. `Names.mint` hands out a new name for each of
them: the first one with a stem is the stem itself, the following ones count from one.

A `Context` says how the code reaches the value that is being checked, always by an expression of
reference type, and which path messages give it.
-/

namespace FieldRules

/-- How many names each stem has been used for. -/
abbrev Names := List (String × Nat)

namespace Names

/-- How many names have the stem. -/
def count (stem : String) (names : Names) : Nat :=
  (names.lookup stem).getD 0

/-- One more name with the stem. -/
def record (stem : String) : Names → Names
  | [] => [(stem, 1)]
  | (s, n) :: rest => if s = stem then (s, n + 1) :: rest else (s, n) :: record stem rest

/-- A new name with the given stem. -/
def mint (stem : String) (names : Names) : String × Names :=
  let n := names.count stem
  (if n = 0 then stem else stem ++ toString n, names.record stem)

end Names

/-- The stem of names for elements of collections. -/
def itemStem : String := "__tagval_item"

/-- The stem of names for keys of maps. -/
def keyStem : String := "__tagval_key"

/-- The stem of names for values of maps. -/
def valueStem : String := "__tagval_value"

/-- The stem of names for values inside optional ones. -/
def presentStem : String := "__tagval_present"

/-- An expression of reference type that reaches a value. -/
inductive Reach where
  | given (tokens : List Token)
  /-- A name that a loop or pattern binds. -/
  | binding (name : String)
  | member (base : Reach) (field : Member)
  | pointee (base : Reach)

/-- The tokens that select a field. -/
def Member.token : Member → Token
  | named name => .ident name.text
  | index n => Token.number n

def Reach.tokens : Reach → List Token
  | given ts => ts
  | binding name => [.ident name]
  | member base field =>
    Token.op "&" ++ [Token.parens base.tokens] ++ Token.op "." ++ [field.token]
  | pointee base =>
    Token.op "&" ++ Token.op "*" ++ Token.op "*" ++ [Token.parens base.tokens]

/-- Where a value is, for the code that checks it. -/
structure Context where
  reach : Reach
  /-- The path of the value in messages. -/
  field : String
  /-- The number of names bound on the way to the value. -/
  depth : Nat

namespace Context

/-- The receiver of a validation routine. -/
def root : Context := ⟨.given [.ident "self"], "", 0⟩

/-- The path of a field below `parent`; an empty name stands for the holder itself. -/
def join (parent name : String) : String :=
  if parent = "" then name
  else if name = "" then parent
  else parent ++ "." ++ name

def member (c : Context) (field : Member) (name : String) : Context :=
  ⟨.member c.reach field, join c.field name, c.depth⟩

/-- The only field of a wrapper. -/
def newtype (c : Context) : Context := c.member (.index 0) ""

/-- The value behind a pointer. -/
def pointee (c : Context) : Context := { c with reach := .pointee c.reach }

/-- A value that the code binds to a name. -/
def bound (c : Context) (name : String) (path : String) : Context :=
  ⟨.binding name, path, c.depth + 1⟩

/-- A new name, and the value that it is bound to at the path `c.field ++ suffix`. -/
def bind (c : Context) (stem suffix : String) (names : Names) : String × Context × Names :=
  let (name, names) := names.mint stem
  (name, c.bound name (c.field ++ suffix), names)

/-- An element of a collection. -/
def item (c : Context) : Names → String × Context × Names := c.bind itemStem "[]"

def mapKey (c : Context) : Names → String × Context × Names := c.bind keyStem "[key]"

def mapValue (c : Context) : Names → String × Context × Names := c.bind valueStem "[value]"

/-- The value inside an optional one. -/
def present (c : Context) : Names → String × Context × Names := c.bind presentStem ""

end Context

end FieldRules
